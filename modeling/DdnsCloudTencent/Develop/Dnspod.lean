import DdnsCloudTencent.Inc.Config
import DdnsCloudTencent.Util.CJson

/-!
# The DNSPod client's state (cloudTencent/custom_cloudTencent.hpp)

`Dnspod` is the singleton `cloudTencent_dnspod`. `recordIpv4` and `recordIpv6`
cache the `A` and `AAAA` records of the configured name as the last listings
gave them; the `request…` fields belong to the request being signed.
`request_nonce`, which no function reads or writes, is left out.
-/

namespace DdnsCloudTencent

open Cxx

/-- `record_list_t` (custom_cloudTencent.hpp:17). -/
structure RecordListT where
  id : UInt64
  value : Bytes
  type : Bytes
deriving DecidableEq

/-- `cloudTencent_dnspod::ip_type_t`, an enumeration of its own. -/
inductive Dnspod.IpType where
  | classIpv6
  | classIpv4
deriving DecidableEq

/-- `class cloudTencent_dnspod` (custom_cloudTencent.hpp:23). -/
structure Dnspod where
  recordIpv4 : List RecordListT
  recordIpv6 : List RecordListT
  domainId : UInt64
  domainGrade : Bytes
  requestAuthorization : Bytes
  credentials : Credentials
  requestVersion : Bytes
  requestTimeUtc : Bytes
  requestTimestamp : Nat
  requestContentType : Bytes
deriving DecidableEq

/-- The constructor (custom_cloudTencent.hpp:64). `request_timestamp`, which it
leaves uninitialised, is written before every use. -/
def Dnspod.new (config : Bytes) : Dnspod where
  recordIpv4 := []
  recordIpv6 := []
  domainId := 0
  domainGrade := []
  requestAuthorization := []
  credentials := fileSecurityConfigRead config ⟨[], []⟩
  requestVersion := tencentRequestDefVersion
  requestTimeUtc := []
  requestTimestamp := 0
  requestContentType := tencentRequestDefContentType

/-- The vector that an address family selects. -/
def Dnspod.record (d : Dnspod) : Dnspod.IpType → List RecordListT
  | .classIpv6 => d.recordIpv6
  | .classIpv4 => d.recordIpv4

/-- `push_back` on the vector of a family. -/
def Dnspod.push (d : Dnspod) (t : Dnspod.IpType) (r : RecordListT) : Dnspod :=
  match t with
  | .classIpv6 => { d with recordIpv6 := d.recordIpv6 ++ [r] }
  | .classIpv4 => { d with recordIpv4 := d.recordIpv4 ++ [r] }

end DdnsCloudTencent
