import DdnsCloudTencent.Theory.Operations

/-!
# The signatures of the requests (custom_cloudTencent.cpp:126, 157)

`tc3Authorization` is the other side of `generateHttpAuthorization`: what a
service that knows the credentials expects in the `Authorization` header, from
nothing but the request itself. It shares no state with the client, and writes
digests and dates by functions of its own.

- `hexEncode_eq`, `strftimeYmd_eq`: the client writes them alike;
- `accepts_signedRequest`: one request of the client is accepted;
- `ClientInv`: what every operation keeps of the object, so that the fields that
  go into a request stay C strings and the content type stays the signed one;
- `requests_accepted`: hence all requests of any sequence of operations.
-/

namespace DdnsCloudTencent

open Cxx

variable {σ : Type}

/-! ## The verifier -/

def hexDigits : Bytes := bytes "0123456789abcdef"

/-- A digest, two lower-case hex digits a byte. -/
def tc3Hex (digest : Bytes) : Bytes :=
  digest.flatMap fun c => [hexDigits.getD (c.toNat / 16) 0, hexDigits.getD (c.toNat % 16) 0]

/-- A calendar field, two digits. -/
def tc3TwoDigits (n : Nat) : String := (n / 10 % 10).repr ++ (n % 10).repr

/-- A date, `yyyy-mm-dd`. -/
def tc3Date (tm : Tm) : Bytes :=
  bytes (tm.year.repr ++ "-" ++ tc3TwoDigits tm.mon ++ "-" ++ tc3TwoDigits tm.mday)

example : tc3Date ⟨2024, 3, 17⟩ = bytes "2024-03-17" := by decide

/-- A header value as it is signed: no blanks around it, in lower case. -/
def canonicalValue (v : Bytes) : Bytes :=
  ((v.dropWhile isSpace).rdropWhile isSpace).map tolower

/-- The canonical request, line by line. -/
def tc3CanonicalRequest (E : Env σ) (method contentType host body : Bytes) : Bytes :=
  joinSep LF [method, bytes "/", [], bytes "content-type:" ++ canonicalValue contentType,
    bytes "host:" ++ canonicalValue host, [], bytes "content-type;host",
    tc3Hex (E.sha256 body).toList]

/-- `date/service/tc3_request`. -/
def tc3Scope (date : Bytes) : Bytes := joinSep 47 [date, bytes "dnspod", bytes "tc3_request"]

/-- The text that is signed, line by line. -/
def tc3StringToSign (E : Env σ) (timestamp date request : Bytes) : Bytes :=
  joinSep LF [bytes "TC3-HMAC-SHA256", timestamp, tc3Scope date,
    tc3Hex (E.sha256 request).toList]

/-- The signature under the key derived for the date and the service. -/
def tc3Signature (E : Env σ) (secretKey date text : Bytes) : Bytes :=
  let secretDate := E.hmacSha256 (bytes "TC3" ++ secretKey) date
  let secretService := E.hmacSha256 secretDate.toList (bytes "dnspod")
  let secretSigning := E.hmacSha256 secretService.toList (bytes "tc3_request")
  tc3Hex (E.hmacSha256 secretSigning.toList text).toList

/-- The `Authorization` value of a request, recomputed from its method, headers
and body. The date is the UTC date of its timestamp. -/
def tc3Authorization (E : Env σ) (c : Credentials) (r : Request) : Option Bytes := do
  let contentType ← r.header (bytes "Content-Type")
  let host ← r.header (bytes "Host")
  let timestamp ← r.header (bytes "X-TC-Timestamp")
  let date := tc3Date (E.gmtime (ofNumeral 10 timestamp))
  let body := (r.postFields.map CStr.toBytes).getD []
  let text := tc3StringToSign E timestamp date
    (tc3CanonicalRequest E r.method contentType host body)
  some (bytes "TC3-HMAC-SHA256 Credential=" ++ c.securityId ++ bytes "/" ++ tc3Scope date ++
    bytes ", SignedHeaders=content-type;host, Signature=" ++
    tc3Signature E c.securityKey date text)

/-- The service accepts the request. -/
def Tc3Accepts (E : Env σ) (c : Credentials) (r : Request) : Prop :=
  ∃ authorization, tc3Authorization E c r = some authorization ∧
    r.header (bytes "Authorization") = some authorization

/-! ## Digests and dates -/

theorem hexDigits_getD {d : Nat} (h : d < 16) : hexDigits.getD d 0 = digitChar d := by
  interval_cases d <;> rfl

theorem hexEncode_eq (input : Bytes) : hexEncode input = tc3Hex input := by
  refine List.flatMap_congr fun c _ => ?_
  have hlt := c.toNat_lt
  rw [printf02x, hexDigits_getD (by omega), hexDigits_getD (by omega)]

theorem sha256Hex_eq (E : Env σ) (str : Bytes) : sha256Hex E str = tc3Hex (E.sha256 str).toList :=
  hexEncode_eq _

theorem printf02d_eq (n : Nat) : printf02d n = bytes (tc3TwoDigits n) := by
  have htens : toDecimal (n / 10 % 10) = [digitChar (n / 10 % 10)] := toDecimal_digit (by omega)
  have hones : toDecimal (n % 10) = [digitChar (n % 10)] := toDecimal_digit (by omega)
  rw [tc3TwoDigits, bytes_append, ← toDecimal_eq_repr, ← toDecimal_eq_repr, htens, hones]
  rfl

theorem strftimeYmd_eq (tm : Tm) : strftimeYmd tm = tc3Date tm := by
  simp only [strftimeYmd, tc3Date, bytes_append, toDecimal_eq_repr, printf02d_eq]

theorem noNul_tc3Hex (digest : Bytes) : 0 ∉ tc3Hex digest := by
  intro h
  obtain ⟨c, -, hc⟩ := List.mem_flatMap.mp h
  have hlt := c.toNat_lt
  rw [hexDigits_getD (by omega), hexDigits_getD (by omega)] at hc
  simp only [List.mem_cons, List.not_mem_nil, or_false] at hc
  rcases hc with hc | hc
  · exact digitChar_ne_zero (by omega) hc.symm
  · exact digitChar_ne_zero (by omega) hc.symm

theorem noNul_tc3Date (tm : Tm) : 0 ∉ tc3Date tm := by
  have hrepr : ∀ n : Nat, 0 ∉ bytes n.repr := fun n => toDecimal_eq_repr n ▸ noNul_toDecimal n
  have htwo : ∀ n, 0 ∉ bytes (tc3TwoDigits n) := fun n => by
    rw [tc3TwoDigits, bytes_append]
    exact noNul_append (hrepr _) (hrepr _)
  simp only [tc3Date, bytes_append]
  exact noNul_append (noNul_append (noNul_append (noNul_append (hrepr _) (by decide)) (htwo _))
    (by decide)) (htwo _)

/-! ## One request -/

/-- The value that a header line carries behind its name. -/
theorem drop_header (name : Bytes) {value : Bytes} (hname : 0 ∉ name) (hvalue : 0 ∉ value) :
    (cStr (name ++ value)).toBytes.drop name.length = value := by
  rw [cStr_toBytes_of_noNul (noNul_append hname hvalue), List.drop_left]

section OneRequest

variable (E : Env σ) (payload : Bytes) (s : Session σ)

/-- The client's canonical request is the verifier's. -/
theorem canonicalRequest_eq :
    bytes "POST" ++ bytes "\n" ++ bytes "/" ++ bytes "\n" ++ bytes "" ++ bytes "\n" ++
        (bytes "content-type:application/json\nhost:" ++ tencentRequestUrl ++ bytes "\n") ++
        bytes "\n" ++ bytes "content-type;host" ++ bytes "\n" ++ sha256Hex E payload =
      tc3CanonicalRequest E (bytes "POST") tencentRequestDefContentType tencentRequestUrl
        payload := by
  rw [sha256Hex_eq]
  rfl

/-- What the client writes into `request_authorization`. -/
theorem requestAuthorization_eq :
    (generateHttpAuthorization E (bytes "POST") payload s).dnspod.requestAuthorization =
      bytes "TC3-HMAC-SHA256 Credential=" ++ s.dnspod.credentials.securityId ++ bytes "/" ++
        tc3Scope (tc3Date (E.gmtime (E.time s.world.ticks))) ++
        bytes ", SignedHeaders=content-type;host, Signature=" ++
        tc3Signature E s.dnspod.credentials.securityKey
          (tc3Date (E.gmtime (E.time s.world.ticks)))
          (tc3StringToSign E (toDecimal (E.time s.world.ticks))
            (tc3Date (E.gmtime (E.time s.world.ticks)))
            (tc3CanonicalRequest E (bytes "POST") tencentRequestDefContentType tencentRequestUrl
              payload)) := by
  have hdate := cStr_toBytes_of_noNul (noNul_tc3Date (E.gmtime (E.time s.world.ticks)))
  have hscope : ∀ date : Bytes, date ++ bytes "/" ++ bytes "dnspod" ++ bytes "/" ++
      bytes "tc3_request" = tc3Scope date := fun date => by
    simp only [List.append_assoc]
    rfl
  have htext : ∀ timestamp date request : Bytes,
      bytes "TC3-HMAC-SHA256" ++ bytes "\n" ++ timestamp ++ bytes "\n" ++ tc3Scope date ++
        bytes "\n" ++ sha256Hex E request = tc3StringToSign E timestamp date request := by
    intro timestamp date request
    rw [sha256Hex_eq]
    simp only [List.append_assoc]
    rfl
  have hhead : ∀ rest : Bytes, bytes "TC3-HMAC-SHA256" ++ (bytes " " ++ (bytes "Credential=" ++
      rest)) = bytes "TC3-HMAC-SHA256 Credential=" ++ rest := fun _ => rfl
  have hsigned : ∀ rest : Bytes, bytes ", " ++ (bytes "SignedHeaders=" ++
      (bytes "content-type;host" ++ (bytes ", " ++ (bytes "Signature=" ++ rest)))) =
      bytes ", SignedHeaders=content-type;host, Signature=" ++ rest := fun _ => rfl
  simp only [generateHttpAuthorization, readClock, canonicalRequest_eq, strftimeYmd_eq,
    hexEncode_eq, hdate, hscope, htext]
  simp only [List.append_assoc, hhead, hsigned]
  rfl

theorem noNul_requestAuthorization (hid : 0 ∉ s.dnspod.credentials.securityId) :
    0 ∉ (generateHttpAuthorization E (bytes "POST") payload s).dnspod.requestAuthorization := by
  have hscope : ∀ tm, 0 ∉ tc3Scope (tc3Date tm) := fun tm =>
    noNul_append (noNul_tc3Date tm) (by decide : (0 : UInt8) ∉ bytes "/dnspod/tc3_request")
  rw [requestAuthorization_eq]
  exact noNul_append (noNul_append (noNul_append (noNul_append (noNul_append (by decide) hid)
    (by decide)) (hscope _)) (by decide)) (noNul_tc3Hex _)

variable (action : Bytes)

theorem header_authorization (hid : 0 ∉ s.dnspod.credentials.securityId) :
    (signedRequest E action payload s).header (bytes "Authorization") =
      some (generateHttpAuthorization E (bytes "POST") payload s).dnspod.requestAuthorization :=
  congrArg some (drop_header (bytes "Authorization: ") (by decide)
    (noNul_requestAuthorization E payload s hid))

theorem header_contentType (h : s.dnspod.requestContentType = tencentRequestDefContentType) :
    (signedRequest E action payload s).header (bytes "Content-Type") =
      some tencentRequestDefContentType := by
  have hline : (signedRequest E action payload s).header (bytes "Content-Type") =
      some ((cStr (bytes "Content-Type: " ++ s.dnspod.requestContentType)).toBytes.drop 14) := rfl
  rw [hline, h]
  exact congrArg some (drop_header (bytes "Content-Type: ") (by decide) (by decide))

theorem header_host :
    (signedRequest E action payload s).header (bytes "Host") = some tencentRequestUrl :=
  congrArg some (drop_header (bytes "Host: ") (by decide) (by decide))

theorem header_timestamp :
    (signedRequest E action payload s).header (bytes "X-TC-Timestamp") =
      some (toDecimal (E.time s.world.ticks)) :=
  congrArg some (drop_header (bytes "X-TC-Timestamp: ") (by decide) (noNul_toDecimal _))

/-- **The service accepts a request of the client**, given that the content type
is the one that is signed and the payload reaches libcurl uncut. -/
theorem accepts_signedRequest (hid : 0 ∉ s.dnspod.credentials.securityId)
    (hcontent : s.dnspod.requestContentType = tencentRequestDefContentType)
    (hpayload : 0 ∉ payload) :
    Tc3Accepts E s.dnspod.credentials (signedRequest E action payload s) := by
  refine ⟨_, ?_, header_authorization E payload s action hid⟩
  have hbody : (((signedRequest E action payload s).postFields.map CStr.toBytes).getD []) =
      payload := cStr_toBytes_of_noNul hpayload
  have htime : ofNumeral 10 (toDecimal (E.time s.world.ticks)) = E.time s.world.ticks :=
    ofNumeral_numeral (by decide) (by decide) _
  -- both sides are computed from the same four texts
  rw [requestAuthorization_eq, tc3Authorization, header_contentType E payload s action hcontent,
    header_host, header_timestamp]
  simp only [Option.bind_eq_bind, Option.bind_some, htime, hbody]
  rfl

end OneRequest

/-! ## All requests of a sequence -/

/-- The types in the vectors are C strings. -/
def Dnspod.TypesNoNul (d : Dnspod) : Prop := ∀ t, ∀ r ∈ d.record t, 0 ∉ r.type

/-- What every operation keeps: the credentials, the signed content type, C
strings in the fields that go into payloads, and that every request since the
start was accepted. -/
structure ClientInv (E : Env σ) (c : Credentials) (sent : List Request) (s : Session σ) :
    Prop where
  credentials : s.dnspod.credentials = c
  contentType : s.dnspod.requestContentType = tencentRequestDefContentType
  grade : 0 ∉ s.dnspod.domainGrade
  types : s.dnspod.TypesNoNul
  accepted : ∃ rs, s.world.sent = sent ++ rs ∧ ∀ r ∈ rs, Tc3Accepts E c r

section Calls

variable {E : Env σ} {c : Credentials} {sent : List Request} {s : Session σ}

/-- One more request. -/
theorem ClientInv.signedPost (h : ClientInv E c sent s) (hid : 0 ∉ c.securityId)
    {payload : Bytes} (hpayload : 0 ∉ payload) (action : Bytes) :
    ClientInv E c sent (signedPost E action payload s).2 where
  credentials := h.credentials
  contentType := h.contentType
  grade := h.grade
  types := h.types
  accepted := by
    obtain ⟨rs, hsent, hrs⟩ := h.accepted
    have hnew := accepts_signedRequest E payload s action (h.credentials ▸ hid) h.contentType
      hpayload
    rw [h.credentials] at hnew
    refine ⟨rs ++ [signedRequest E action payload s], ?_, fun r hr => ?_⟩
    · rw [signedPost_sent, hsent, List.append_assoc]
    · rcases List.mem_append.mp hr with hr | hr
      · exact hrs r hr
      · rw [List.mem_singleton.mp hr]
        exact hnew

/-- Decoding the reply keeps the invariant, also where it faults. -/
theorem ClientInv.decodeInto {decode : Bytes → Dnspod → Decoded} {r : Bytes × Session σ}
    (h : ClientInv E c sent r.2)
    (hdecode : ∀ src d b d', decode src d = .ok (b, d') →
      d'.credentials = d.credentials ∧ d'.requestContentType = d.requestContentType ∧
        (0 ∉ d.domainGrade → 0 ∉ d'.domainGrade) ∧
        (d.TypesNoNul → d'.TypesNoNul)) :
    ClientInv E c sent (decodeInto decode r).2 := by
  unfold DdnsCloudTencent.decodeInto
  cases hd : decode r.1 r.2.dnspod with
  | error f => exact h
  | ok o =>
    obtain ⟨b, d'⟩ := o
    obtain ⟨h1, h2, h3, h4⟩ := hdecode _ _ _ _ hd
    exact ⟨h1.trans h.credentials, h2.trans h.contentType, h3 h.grade, h4 h.types, h.accepted⟩

/-- The types in the vectors are the two literals. -/
theorem decodeRecordListFilter_types {M : Machine} {g : Config} {src : Bytes} {d d' : Dnspod}
    {b : Bool} (h : tencentcloudDecodeRecordListFilter M g src d = .ok (b, d'))
    (hd : d.TypesNoNul) : d'.TypesNoNul := by
  refine decodeRecordListFilter_preserves (fun x _ t r d₁ hd₁ hrec => ?_) hd h
  intro t' r' hr'
  rcases mem_record_push.mp hr' with hr' | ⟨rfl, rfl⟩
  · exact hd₁ t' r' hr'
  · rw [hrec.type]
    exact noNul_typeText t'

/-- The arguments of a call have no NUL byte. -/
def Operation.NoNul : Operation → Prop
  | .recordDelete domain _ => 0 ∉ domain
  | .recordModify _ ip => 0 ∉ ip
  | .recordTXTModify _ ip => 0 ∉ ip
  | _ => True

/-- The two configured names have no NUL byte. -/
structure Config.NoNul (g : Config) : Prop where
  domainName : 0 ∉ g.domainName
  domainSubname : 0 ∉ g.domainSubname

theorem noNul_domainPayload {domain : Bytes} (h : 0 ∉ domain) : 0 ∉ domainPayload domain :=
  noNul_append (noNul_append (by decide) h) (by decide)

theorem noNul_recordListPayload {g : Config} (h : g.NoNul) : 0 ∉ recordListPayload g := by
  unfold recordListPayload
  split
  · exact noNul_domainPayload h.domainName
  · exact noNul_append (noNul_append (noNul_append (noNul_append (by decide) h.domainName)
      (by decide)) h.domainSubname) (by decide)

theorem noNul_recordListFilterPayload {g : Config} (h : g.NoNul) :
    0 ∉ recordListFilterPayload g := by
  unfold recordListFilterPayload
  split
  · exact noNul_domainPayload h.domainName
  · exact noNul_append (noNul_append (noNul_append (noNul_append (by decide) h.domainName)
      (by decide)) h.domainSubname) (by decide)

theorem noNul_recordLineListPayload {g : Config} (h : g.NoNul) {grade : Bytes}
    (hgrade : 0 ∉ grade) : 0 ∉ recordLineListPayload g grade := by
  unfold recordLineListPayload
  split
  · exact noNul_domainPayload h.domainName
  · exact noNul_append (noNul_append (noNul_append (noNul_append (by decide) h.domainName)
      (by decide)) hgrade) (by decide)

theorem noNul_recordDeletePayload {domain : Bytes} (h : 0 ∉ domain) (id : UInt32) :
    0 ∉ recordDeletePayload domain id :=
  noNul_append (noNul_append (noNul_append (noNul_append (by decide) h) (by decide))
    (noNul_toDecimal _)) (by decide)

theorem noNul_recordModifyPayload {g : Config} (h : g.NoNul) {record0 : RecordListT}
    (htype : 0 ∉ record0.type) {ip : Bytes} (hip : 0 ∉ ip) :
    0 ∉ recordModifyPayload g record0 ip := by
  have hhead : 0 ∉ bytes "\x7b\"Domain\": \"" ++ g.domainName ++
      bytes "\", \"RecordType\": \"" ++ record0.type ++
      bytes "\", \"RecordLine\": \"" ++ defaultLine ++ bytes "\", \"Value\": \"" ++ ip ++
      bytes "\", \"RecordId\": " ++ toDecimal record0.id.toNat :=
    noNul_append (noNul_append (noNul_append (noNul_append (noNul_append (noNul_append
      (noNul_append (noNul_append (noNul_append (by decide) h.domainName) (by decide)) htype)
      (by decide)) (by decide)) (by decide)) hip) (by decide)) (noNul_toDecimal _)
  unfold recordModifyPayload
  split
  · exact noNul_append hhead (by decide)
  · exact noNul_append (noNul_append (noNul_append hhead (by decide)) h.domainSubname) (by decide)

theorem noNul_recordTXTModifyPayload {g : Config} (h : g.NoNul) (record0 : RecordListT)
    {ip : Bytes} (hip : 0 ∉ ip) : 0 ∉ recordTXTModifyPayload g record0 ip := by
  unfold recordTXTModifyPayload
  split
  · exact noNul_domainPayload h.domainName
  · exact noNul_append (noNul_append (noNul_append (noNul_append (noNul_append (noNul_append
      (noNul_append (noNul_append (noNul_append (noNul_append (by decide) h.domainName) (by decide))
      h.domainSubname) (by decide)) hip) (by decide)) (by decide)) (by decide))
      (noNul_toDecimal _)) (by decide)

/-- Every operation keeps the invariant. -/
theorem ClientInv.call {g : Config} (hg : g.NoNul) (hid : 0 ∉ c.securityId) {op : Operation}
    (hop : op.NoNul) (h : ClientInv E c sent s) : ClientInv E c sent (op.call E g s).2 := by
  cases op with
  | domainList =>
    refine (h.signedPost hid (by decide) _).decodeInto fun src d b d' hd => ?_
    have hf := decodeDomainList_frame hd
    have hrecord : ∀ t, d'.record t = d.record t := fun t => by rw [hf.rest]; cases t <;> rfl
    refine ⟨by rw [hf.rest], by rw [hf.rest], hf.grade, fun htypes t r hr => ?_⟩
    exact htypes t r (hrecord t ▸ hr)
  | recordList => exact h.signedPost hid (noNul_recordListPayload hg) _
  | recordLineList => exact h.signedPost hid (noNul_recordLineListPayload hg h.grade) _
  | recordListFilter =>
    refine (h.signedPost hid (noNul_recordListFilterPayload hg) _).decodeInto
      fun src d b d' hd => ?_
    have hf := decodeRecordListFilter_frame hd
    have hgrade : d'.domainGrade = d.domainGrade := by rw [hf.rest]
    exact ⟨by rw [hf.rest], by rw [hf.rest], fun h0 => hgrade ▸ h0,
      decodeRecordListFilter_types hd⟩
  | recordDelete domain id => exact h.signedPost hid (noNul_recordDeletePayload hop id) _
  | recordDeleteRemainOne =>
    show ClientInv E c sent (recordDeleteRemainOne E g s)
    rw [recordDeleteRemainOne_eq]
    -- one request after the other, over the surplus
    generalize surplus s.dnspod = rs
    induction rs generalizing s with
    | nil => exact h
    | cons r rs ih =>
      exact ih (h.signedPost hid (noNul_recordDeletePayload hg.domainName _) _)
  | recordModify t ip =>
    show ClientInv E c sent (dnspodRecordModify E g t ip s).2
    -- without a record nothing is sent
    rcases dnspodRecordModify_cases E g t ip s with ⟨-, heq⟩ | ⟨record0, rest, hrecord, heq⟩
    · rw [heq]
      exact h
    · have htype : 0 ∉ record0.type := h.types t record0 (hrecord ▸ List.mem_cons_self)
      rw [heq]
      exact h.signedPost hid (noNul_recordModifyPayload hg htype hop) _
  | recordTXTModify t ip =>
    show ClientInv E c sent (dnspodRecordTXTModify E g t ip s).2
    unfold dnspodRecordTXTModify
    split
    · exact h
    · exact h.signedPost hid (noNul_recordTXTModifyPayload hg _ hop) _

end Calls

/-! ## From the configuration file on -/

theorem mem_trimLine {line : Bytes} {x : UInt8} (h : x ∈ trimLine line) : x ∈ line := by
  unfold trimLine at h
  have h' := (List.takeWhile_prefix _).subset h
  split at h'
  · exact List.mem_of_mem_dropLast h'
  · exact h'

/-- A file without a NUL byte gives names without one. -/
theorem noNul_fileConfigRead {config : Bytes} (h : 0 ∉ config) :
    (fileConfigRead config Config.empty).NoNul := by
  -- a line can only store a part of itself
  have hfold : ∀ (lines : List Bytes) (g : Config), (∀ l ∈ lines, 0 ∉ l) → g.NoNul →
      (lines.foldl fileConfigReadLine g).NoNul := by
    intro lines
    induction lines with
    | nil => exact fun _ _ hg => hg
    | cons line lines ih =>
      intro g hlines hg
      refine ih _ (fun l hl => hlines l (List.mem_cons_of_mem line hl)) ?_
      have hline : ∀ n, 0 ∉ (trimLine line).drop n := fun n h0 =>
        hlines line List.mem_cons_self (mem_trimLine (List.mem_of_mem_drop h0))
      unfold fileConfigReadLine
      simp only
      split
      · exact ⟨hline _, hg.domainSubname⟩
      · split
        · exact ⟨hg.domainName, hline _⟩
        · split
          · exact ⟨hg.domainName, hg.domainSubname⟩
          · split
            · exact ⟨hg.domainName, hg.domainSubname⟩
            · exact hg
  have hread := hfold (getlines config) Config.empty
    (fun l hl h0 => h (mem_of_mem_getlines hl h0)) ⟨List.not_mem_nil, List.not_mem_nil⟩
  unfold fileConfigRead
  simp only
  split
  · exact ⟨hread.domainName, hread.domainSubname⟩
  · exact ⟨hread.domainName, hread.domainSubname⟩

theorem noNul_securityId {config : Bytes} (h : 0 ∉ config) :
    0 ∉ (fileSecurityConfigRead config ⟨[], []⟩).securityId := by
  have hfold : ∀ (lines : List Bytes) (c : Credentials), (∀ l ∈ lines, 0 ∉ l) →
      0 ∉ c.securityId → 0 ∉ (lines.foldl fileSecurityConfigReadLine c).securityId := by
    intro lines
    induction lines with
    | nil => exact fun _ _ hc => hc
    | cons line lines ih =>
      intro c hlines hc
      refine ih _ (fun l hl => hlines l (List.mem_cons_of_mem line hl)) ?_
      have hline : ∀ n, 0 ∉ (trimLine line).drop n := fun n h0 =>
        hlines line List.mem_cons_self (mem_trimLine (List.mem_of_mem_drop h0))
      unfold fileSecurityConfigReadLine
      simp only
      split
      · exact hc
      · split
        · exact hline _
        · exact hc
  exact hfold (getlines config) ⟨[], []⟩ (fun l hl h0 => h (mem_of_mem_getlines hl h0))
    List.not_mem_nil

/-- **Every request of every sequence of operations is accepted.** The object is
made from a configuration file, the service knows its credentials, and neither
the file nor a string argument has a NUL byte. The clock, the calendar, the
digests and the replies are arbitrary. -/
theorem requests_accepted (E : Env σ) (config : Bytes) (hconfig : 0 ∉ config) (w : World σ)
    (ops : List Operation) (hops : ∀ op ∈ ops, op.NoNul) :
    ∀ r ∈ sentSince ⟨Dnspod.new config, w⟩ (ops.foldl
        (callStep E (fileConfigRead config Config.empty)) (.ok (), ⟨Dnspod.new config, w⟩)).2,
      Tc3Accepts E (fileSecurityConfigRead config ⟨[], []⟩) r := by
  have hinit : ClientInv E (fileSecurityConfigRead config ⟨[], []⟩) w.sent
      ⟨Dnspod.new config, w⟩ := by
    refine ⟨rfl, rfl, List.not_mem_nil, fun t r hr => ?_, [], by rw [List.append_nil], ?_⟩
    · cases t <;> exact absurd hr List.not_mem_nil
    · exact fun r hr => absurd hr List.not_mem_nil
  have hcall : ∀ op ∈ ops, ∀ s, ClientInv E (fileSecurityConfigRead config ⟨[], []⟩) w.sent s →
      ClientInv E (fileSecurityConfigRead config ⟨[], []⟩) w.sent
        (op.call E (fileConfigRead config Config.empty) s).2 := fun op hop s h =>
    h.call (noNul_fileConfigRead hconfig) (noNul_securityId hconfig) (hops op hop)
  obtain ⟨rs, hsent, hrs⟩ := (foldl_callStep_preserves hcall (.ok (), _) hinit).accepted
  rw [sentSince_of_eq hsent]
  exact hrs

/-- A client whose listing finds an `A` record, and seven operations on it. -/
theorem requests_accepted_sample :
    let E : Env Unit := replyEnv (bytes "\x7b\"Response\":\x7b\"RecordList\":[" ++
      bytes "\x7b\"Name\":\"home\",\"Type\":\"A\",\"Value\":\"192.0.2.1\",\"RecordId\":7\x7d" ++
      bytes "]\x7d\x7d")
    let config := bytes "key=k\nkeyid=AKID\ndomain_name=example.com\ndomain_subname=home\n"
    let ops : List Operation := [.domainList, .recordList, .recordLineList, .recordListFilter,
      .recordDelete (bytes "example.com") 9, .recordModify .classIpv4 (bytes "192.0.2.2"),
      .recordTXTModify .classIpv4 (bytes "192.0.2.2")]
    let s : Session Unit := ⟨Dnspod.new config, ⟨(), [], 0⟩⟩
    let s' := (ops.foldl (callStep E (fileConfigRead config Config.empty)) (.ok (), s)).2
    (sentSince s s').length = 7 ∧
      ∀ r ∈ sentSince s s', Tc3Accepts E (fileSecurityConfigRead config ⟨[], []⟩) r := by
  intro E config ops s s'
  have hops : ∀ op ∈ ops, op.NoNul := by
    simp only [ops, List.forall_mem_cons, Operation.NoNul]
    exact ⟨trivial, trivial, trivial, trivial, by decide, by decide, by decide,
      fun op h => absurd h List.not_mem_nil⟩
  exact ⟨by decide +kernel, requests_accepted E config (by decide) ⟨(), [], 0⟩ ops hops⟩

end DdnsCloudTencent
