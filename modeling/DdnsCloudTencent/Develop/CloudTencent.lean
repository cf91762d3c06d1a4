import DdnsCloudTencent.Develop.ResponseDecode

/-!
# The DNSPod client (cloudTencent/custom_cloudTencent.cpp)

A `Session` is the client object together with the world it talks to. Every
operation builds a payload, signs it (`generateHttpAuthorization`), builds the
header lines (`generateHttpHeader`) and posts it; `signedPost` is this common
tail. Two operations decode the reply and can run into a `Fault` there; the
others ignore it.

Each payload is a function of its own, written as the source concatenates it.
-/

namespace DdnsCloudTencent

open Cxx

variable {σ : Type}

/-- The client object and the world. -/
structure Session (σ : Type) where
  dnspod : Dnspod
  world : World σ

/-! ## Signing -/

/-- `%02x`. -/
def printf02x (c : UInt8) : Bytes := [digitChar (c.toNat / 16), digitChar (c.toNat % 16)]

/-- `HexEncode` (custom_cloudTencent.cpp:24). -/
def hexEncode (input : Bytes) : Bytes := input.flatMap printf02x

/-- `HmacSha256` (custom_cloudTencent.cpp:38). -/
def hmacSha256 (E : Env σ) (key input : Bytes) : Bytes := (E.hmacSha256 key input).toList

/-- `sha256Hex` (custom_cloudTencent.cpp:70). -/
def sha256Hex (E : Env σ) (str : Bytes) : Bytes := (E.sha256 str).toList.flatMap printf02x

/-- `%02d` of a calendar field. -/
def printf02d (n : Nat) : Bytes := [digitChar (n / 10 % 10), digitChar (n % 10)]

/-- `strftime` with `%Y-%m-%d`. -/
def strftimeYmd (tm : Tm) : Bytes :=
  toDecimal tm.year ++ bytes "-" ++ printf02d tm.mon ++ bytes "-" ++ printf02d tm.mday

/-- `cloudTencent_dnspod::generate_http_authorization` (custom_cloudTencent.cpp:157). -/
def generateHttpAuthorization (E : Env σ) (method payload : Bytes) (s : Session σ) :
    Session σ :=
  let clock := readClock E s.world
  let t := clock.1
  let timestampStr := strftimeYmd (E.gmtime t)
  -- step 1: the canonical request
  let canonicalUri := bytes "/"
  let canonicalQueryString := bytes ""
  let canonicalHeaders :=
    bytes "content-type:application/json\nhost:" ++ tencentRequestUrl ++ bytes "\n"
  let signedHeaders := bytes "content-type;host"
  let hashedRequestPayload := sha256Hex E payload
  let canonicalRequest := method ++ bytes "\n" ++ canonicalUri ++ bytes "\n" ++
    canonicalQueryString ++ bytes "\n" ++ canonicalHeaders ++ bytes "\n" ++ signedHeaders ++
    bytes "\n" ++ hashedRequestPayload
  -- step 2: the string to sign
  let algorithm := bytes "TC3-HMAC-SHA256"
  let requestTimestamp := toDecimal t
  let credentialScope := timestampStr ++ bytes "/" ++ bytes "dnspod" ++ bytes "/" ++
    bytes "tc3_request"
  let hashedCanonicalRequest := sha256Hex E canonicalRequest
  let stringToSign := bytes "TC3-HMAC-SHA256" ++ bytes "\n" ++ requestTimestamp ++ bytes "\n" ++
    credentialScope ++ bytes "\n" ++ hashedCanonicalRequest
  -- step 3: the signature
  let kKey := bytes "TC3" ++ s.dnspod.credentials.securityKey
  let kDate := hmacSha256 E kKey (cStr timestampStr).toBytes
  let kService := hmacSha256 E kDate (bytes "dnspod")
  let kSigning := hmacSha256 E kService (bytes "tc3_request")
  let signature := hexEncode (hmacSha256 E kSigning stringToSign)
  -- step 4: the Authorization value
  let authorization := algorithm ++ bytes " " ++ bytes "Credential=" ++
    s.dnspod.credentials.securityId ++ bytes "/" ++ credentialScope ++ bytes ", " ++
    bytes "SignedHeaders=" ++ signedHeaders ++ bytes ", " ++ bytes "Signature=" ++ signature
  { dnspod := { s.dnspod with
      requestTimestamp := t
      requestTimeUtc := timestampStr
      requestAuthorization := authorization }
    world := clock.2 }

/-- `cloudTencent_dnspod::generate_http_header` (custom_cloudTencent.cpp:126). -/
def generateHttpHeader (d : Dnspod) (action : Bytes) : List CStr :=
  [cStr (bytes "Authorization: " ++ d.requestAuthorization),
    cStr (bytes "Content-Type: " ++ d.requestContentType),
    cStr (bytes "Host: " ++ tencentRequestUrl),
    cStr (bytes "X-TC-Action: " ++ action),
    cStr (bytes "X-TC-Timestamp: " ++ toDecimal d.requestTimestamp),
    cStr (bytes "X-TC-Version: " ++ d.requestVersion),
    cStr (bytes "X-TC-Language: zh-CN"),
    cStr (bytes "X-TC-Token: ")]

/-- What every operation does with its action and payload: sign, build the
header, post, and return the reply. -/
def signedPost (E : Env σ) (action payload : Bytes) (s : Session σ) : Bytes × Session σ :=
  let s := generateHttpAuthorization E (bytes "POST") payload s
  let headers := generateHttpHeader s.dnspod action
  let url := bytes "https://" ++ tencentRequestUrl
  let r := curlRequest E url (bytes "POST") (some payload) headers s.world
  (r.1, { s with world := r.2 })

/-! ## Listing -/

/-- `return decode(response, this)` of a listing operation. -/
def decodeInto (decode : Bytes → Dnspod → Decoded) (r : Bytes × Session σ) :
    Except Fault Bool × Session σ :=
  match decode r.1 r.2.dnspod with
  | .error f => (.error f, r.2)
  | .ok (ret, d) => (.ok ret, { r.2 with dnspod := d })

/-- `cloudTencent_dnspod::dnspod_domain_list` (custom_cloudTencent.cpp:256). -/
def dnspodDomainList (E : Env σ) (g : Config) (s : Session σ) : Except Fault Bool × Session σ :=
  decodeInto (tencentcloudDecodeDomainList E.machine g)
    (signedPost E (bytes "DescribeDomainList") (bytes "\x7b\x7d") s)

/-- The payload of a domain alone. -/
def domainPayload (domain : Bytes) : Bytes :=
  bytes "\x7b\"Domain\": \"" ++ domain ++ bytes "\"\x7d"

/-- The payload of `dnspod_record_list` (custom_cloudTencent.cpp:292). -/
def recordListPayload (g : Config) : Bytes :=
  if g.domainSubname = [] then domainPayload g.domainName
  else bytes "\x7b\"Domain\": \"" ++ g.domainName ++ bytes "\", \"SubDomain\": \"" ++
    g.domainSubname ++ bytes "\"\x7d"

/-- `cloudTencent_dnspod::dnspod_record_list` (custom_cloudTencent.cpp:284). -/
def dnspodRecordList (E : Env σ) (g : Config) (s : Session σ) : Bool × Session σ :=
  (true, (signedPost E (bytes "DescribeRecordList") (recordListPayload g) s).2)

/-- The payload of `dnspod_record_line_list` (custom_cloudTencent.cpp:333). -/
def recordLineListPayload (g : Config) (domainGrade : Bytes) : Bytes :=
  if g.domainSubname = [] then domainPayload g.domainName
  else bytes "\x7b\"Domain\": \"" ++ g.domainName ++ bytes "\", \"DomainGrade\": \"" ++
    domainGrade ++ bytes "\"\x7d"

/-- `cloudTencent_dnspod::dnspod_record_line_list` (custom_cloudTencent.cpp:324). -/
def dnspodRecordLineList (E : Env σ) (g : Config) (s : Session σ) : Bool × Session σ :=
  (true, (signedPost E (bytes "DescribeRecordLineList")
    (recordLineListPayload g s.dnspod.domainGrade) s).2)

/-- The payload of `dnspod_record_list_filter` (custom_cloudTencent.cpp:367). -/
def recordListFilterPayload (g : Config) : Bytes :=
  if g.domainSubname = [] then domainPayload g.domainName
  else bytes "\x7b\"Domain\": \"" ++ g.domainName ++ bytes "\", \"SubDomain\": \"" ++
    g.domainSubname ++ bytes "\", \"IsExactSubDomain\": true\x7d"

/-- The request of `dnspod_record_list_filter` and its reply. -/
def postRecordListFilter (E : Env σ) (g : Config) (s : Session σ) : Bytes × Session σ :=
  signedPost E (bytes "DescribeRecordFilterList") (recordListFilterPayload g) s

/-- `cloudTencent_dnspod::dnspod_record_list_filter` (custom_cloudTencent.cpp:359). -/
def dnspodRecordListFilter (E : Env σ) (g : Config) (s : Session σ) :
    Except Fault Bool × Session σ :=
  decodeInto (tencentcloudDecodeRecordListFilter E.machine g) (postRecordListFilter E g s)

/-! ## Deleting -/

/-- The payload of `dnspod_record_delete` (custom_cloudTencent.cpp:409). -/
def recordDeletePayload (domain : Bytes) (recordId : UInt32) : Bytes :=
  bytes "\x7b\"Domain\": \"" ++ domain ++ bytes "\", \"RecordId\": " ++
    toDecimal recordId.toNat ++ bytes "\x7d"

/-- `cloudTencent_dnspod::dnspod_record_delete` (custom_cloudTencent.cpp:395). -/
def dnspodRecordDelete (E : Env σ) (domain : Bytes) (recordId : UInt32) (s : Session σ) :
    Bool × Session σ :=
  (true, (signedPost E (bytes "DeleteRecord") (recordDeletePayload domain recordId) s).2)

/-- The loop over one vector, from the second record on: `it->id` is narrowed to
the `uint32_t` parameter. -/
def deleteLoop (E : Env σ) (g : Config) (records : List RecordListT) (s : Session σ) :
    Session σ :=
  records.foldl (fun s it => (dnspodRecordDelete E g.domainName it.id.toUInt32 s).2) s

/-- `cloudTencent_dnspod::record_delete_remain_one` (custom_cloudTencent.cpp:230). -/
def recordDeleteRemainOne (E : Env σ) (g : Config) (s : Session σ) : Session σ :=
  let s := if s.dnspod.recordIpv4.length > 1 then
    deleteLoop E g (s.dnspod.recordIpv4.drop 1) s else s
  if s.dnspod.recordIpv6.length > 1 then deleteLoop E g (s.dnspod.recordIpv6.drop 1) s else s

/-! ## Modifying -/

/-- `RecordLine` of a modification: the default line. -/
def defaultLine : Bytes := bytes "默认"

/-- The payload of `dnspod_record_modify` (custom_cloudTencent.cpp:454) for the
record `record0`. -/
def recordModifyPayload (g : Config) (record0 : RecordListT) (ipAddr : Bytes) : Bytes :=
  let payload := bytes "\x7b\"Domain\": \"" ++ g.domainName ++
    bytes "\", \"RecordType\": \"" ++ record0.type ++
    bytes "\", \"RecordLine\": \"" ++ defaultLine ++
    bytes "\", \"Value\": \"" ++ ipAddr ++
    bytes "\", \"RecordId\": " ++ toDecimal record0.id.toNat
  if g.domainSubname = [] then payload ++ bytes "\x7d"
  else payload ++ bytes ", \"SubDomain\": \"" ++ g.domainSubname ++ bytes "\"\x7d"

/-- `cloudTencent_dnspod::dnspod_record_modify` (custom_cloudTencent.cpp:431). -/
def dnspodRecordModify (E : Env σ) (g : Config) (ipType : Dnspod.IpType) (ipAddr : Bytes)
    (s : Session σ) : Int × Session σ :=
  match s.dnspod.record ipType with
  | [] => (-1, s)
  | record0 :: _ =>
    (0, (signedPost E (bytes "ModifyRecord") (recordModifyPayload g record0 ipAddr) s).2)

/-- The payload of `dnspod_record_TXT_modify` (custom_cloudTencent.cpp:510). -/
def recordTXTModifyPayload (g : Config) (record0 : RecordListT) (ipAddr : Bytes) : Bytes :=
  if g.domainSubname = [] then domainPayload g.domainName
  else bytes "\x7b\"Domain\": \"" ++ g.domainName ++
    bytes "\", \"SubDomain\": \"" ++ g.domainSubname ++
    bytes "\", \"Value\": \"" ++ ipAddr ++
    bytes "\", \"RecordLine\": \"" ++ defaultLine ++
    bytes "\", \"RecordId\": " ++ toDecimal record0.id.toNat ++ bytes "\x7d"

/-- `cloudTencent_dnspod::dnspod_record_TXT_modify` (custom_cloudTencent.cpp:488). -/
def dnspodRecordTXTModify (E : Env σ) (g : Config) (ipType : Dnspod.IpType) (ipAddr : Bytes)
    (s : Session σ) : Int × Session σ :=
  match s.dnspod.record ipType with
  | [] => (-1, s)
  | record0 :: _ =>
    (0, (signedPost E (bytes "ModifyTXTRecord") (recordTXTModifyPayload g record0 ipAddr) s).2)

end DdnsCloudTencent
