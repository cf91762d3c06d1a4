import DdnsCloudTencent.Develop.Dnspod

/-!
# Decoding the replies (cloudTencent/custom_cloudTencent_response_decode.cpp)

Each decoder returns the value the C++ function returns together with the
object as the function leaves it, or the `Fault` the function runs into.
`FUNC_JSON_CHECK` is the `none` branch after each lookup: the decoder returns
`false` at once, and what it has stored so far stays stored.
-/

namespace DdnsCloudTencent

open Cxx

/-- The C string of a literal. -/
def key (s : String) : CStr := cStr (bytes s)

/-- The result of a decoder. -/
abbrev Decoded := Except Fault (Bool × Dnspod)

/-- One block of the record decoder, for one type (custom_cloudTencent_response_decode.cpp:94,
109): `Value` and `RecordId` of an item, `none` where `FUNC_JSON_CHECK` leaves. -/
def readRecord (M : Machine) (domain : CJson) (type : Bytes) :
    Except Fault (Option RecordListT) :=
  match tretapCJsonGetObjectItem domain (key "Value") with
  | none => .ok none
  | some fifth =>
    match fifth.valuestring with
    | none => .error .nullString
    | some value =>
      match tretapCJsonGetObjectItem domain (key "RecordId") with
      | none => .ok none
      | some fifth => .ok (some ⟨M.toUInt64 fifth.valuedouble, value.toBytes, type⟩)

/-- The `if (strcmp(…, type) == 0)` block of one type: go on with the object as
it is, or with the record pushed, or return `false`. -/
def recordBlock (M : Machine) (domain : CJson) (fourth : CStr) (type : String)
    (t : Dnspod.IpType) (d : Dnspod) : Decoded :=
  if fourth = key type then
    match readRecord M domain (bytes type) with
    | .error f => .error f
    | .ok none => .ok (false, d)
    | .ok (some r) => .ok (true, d.push t r)
  else .ok (true, d)

/-- The body of the record decoder's loop (custom_cloudTencent_response_decode.cpp:84). -/
def recordListFilterItem (M : Machine) (temp : CStr) (domain : CJson) (d : Dnspod) : Decoded :=
  match tretapCJsonGetObjectItem domain (key "Name") with
  | none => .ok (false, d)
  | some fourth =>
    if fourth.valuestring = some temp then
      match tretapCJsonGetObjectItem domain (key "Type") with
      | none => .ok (false, d)
      | some fourth =>
        match fourth.valuestring with
        | none => .error .nullString
        | some type =>
          -- the two blocks stand one after the other
          match recordBlock M domain type "A" .classIpv4 d with
          | .ok (true, d) => recordBlock M domain type "AAAA" .classIpv6 d
          | r => r
    else .ok (true, d)

/-- The loop of a decoder over the items `i, …` of an array. -/
def itemLoop (body : CJson → Dnspod → Decoded) (third : CJson) : List Nat → Dnspod → Decoded
  | [], d => .ok (true, d)
  | i :: is, d =>
    match tretapCJsonGetArrayItem third i with
    | none => .error .nullObject
    | some domain =>
      match body domain d with
      | .ok (true, d) => itemLoop body third is d
      | r => r

/-- What both decoders do around their loop: parse, and descend to the list
`Response.<member>`, whose items are visited when it is an array. -/
def decodeResponse (M : Machine) (member : String) (body : CJson → Dnspod → Decoded)
    (src : Bytes) (d : Dnspod) : Decoded :=
  match tretapCJsonParse M (cStr src) with
  | .error f => .error f
  | .ok none => .ok (false, d)
  | .ok (some root) =>
    match tretapCJsonGetObjectItem root (key "Response") with
    | none => .ok (false, d)
    | some second =>
      match tretapCJsonGetObjectItem second (key member) with
      | none => .ok (false, d)
      | some third =>
        -- a list of any other type is passed over
        if third.isArray then itemLoop body third (List.range (tretapCJsonGetArraySize third)) d
        else .ok (true, d)

/-- The name the record decoder looks for. -/
def recordTarget (g : Config) : CStr :=
  if g.domainSubname = [] then key "@" else cStr g.domainSubname

/-- `tencentcloud_decode_record_list_filter` (custom_cloudTencent_response_decode.cpp:66). -/
def tencentcloudDecodeRecordListFilter (M : Machine) (g : Config) (src : Bytes) (d : Dnspod) :
    Decoded :=
  decodeResponse M "RecordList" (recordListFilterItem M (recordTarget g)) src d

/-- The body of the domain decoder's loop (custom_cloudTencent_response_decode.cpp:35). -/
def domainListItem (temp : CStr) (domain : CJson) (d : Dnspod) : Decoded :=
  match tretapCJsonGetObjectItem domain (key "Name") with
  | none => .ok (false, d)
  | some fourth =>
    if fourth.valuestring = some temp then
      match tretapCJsonGetObjectItem domain (key "DomainId") with
      | none => .ok (false, d)
      | some fourth =>
        -- stored from `valueint`, before `Grade` is looked up
        let d := { d with domainId := fourth.valueint.toInt64.toUInt64 }
        match tretapCJsonGetObjectItem domain (key "Grade") with
        | none => .ok (false, d)
        | some fourth =>
          match fourth.valuestring with
          | none => .error .nullString
          | some grade => .ok (true, { d with domainGrade := grade.toBytes })
    else .ok (true, d)

/-- `tencentcloud_decode_domain_list` (custom_cloudTencent_response_decode.cpp:19). -/
def tencentcloudDecodeDomainList (M : Machine) (g : Config) (src : Bytes) (d : Dnspod) :
    Decoded :=
  decodeResponse M "DomainList" (domainListItem (cStr g.domainName)) src d

end DdnsCloudTencent
