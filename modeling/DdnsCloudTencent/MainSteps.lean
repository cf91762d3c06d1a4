import DdnsCloudTencent.Lib.Parties
import DdnsCloudTencent.Main

/-!
# One run of the program, request by request (main.cpp)

The program keeps no lock, so several hosts can run it against one domain at the
same time. What matters then is what each run does between two requests.
`Client` is a process without the world, together with the place where it stands
in `main`; `Client.next` goes on from there to the next request. A step sends at
most one.
-/

namespace DdnsCloudTencent

open Cxx

variable {σ : Type}

/-- Where `main` stands. -/
inductive Phase where
  /-- In `check_demo_http_check` (check_ip_wan.cpp:265). -/
  | checkIpv4
  | checkIpv6
  | domainList
  | recordListFilter
  /-- In `record_delete_remain_one`, with the records `it` has still to visit. -/
  | recordDelete (it : List RecordListT)
  | modifyIpv4
  | modifyIpv6
  | ended (ret : Except Fault Unit)
deriving DecidableEq

/-- A process without the world. -/
structure Client where
  phase : Phase
  fileConfig : Config
  ipV4 : Ipaddress
  ipV6 : Ipaddress
  dnspod : Dnspod

/-- A process that stands at `phase`. -/
def Process.client (p : Process σ) (phase : Phase) : Client :=
  ⟨phase, p.fileConfig, p.ipV4, p.ipV6, p.session.dnspod⟩

/-- The address object of a family. -/
def Client.ip (c : Client) : Dnspod.IpType → Ipaddress
  | .classIpv4 => c.ipV4
  | .classIpv6 => c.ipV6

/-- `main` before its first request. -/
def Client.start (E : Env σ) (config : Bytes) (ifAddrStruct : List Ifaddrs) : Client :=
  let g := fileConfigRead config Config.empty
  { phase := .checkIpv4
    fileConfig := g
    ipV4 := (Ipaddress.new .classIpv4 g.domainFull).checkLocalIp E.machine ifAddrStruct
    ipV6 := (Ipaddress.new .classIpv6 g.domainFull).checkLocalIp E.machine ifAddrStruct
    dnspod := Dnspod.new config }

/-- The records that the two loops of `record_delete_remain_one` visit
(custom_cloudTencent.cpp:230). -/
def Client.toDelete (d : Dnspod) : List RecordListT :=
  (if d.recordIpv4.length > 1 then d.recordIpv4.drop 1 else []) ++
    if d.recordIpv6.length > 1 then d.recordIpv6.drop 1 else []

/-- Where `main` stands after a listing: at `phase`, or at the end where the
decoder faulted. -/
def Phase.afterListing (phase : Phase) : Except Fault Bool → Phase
  | .error f => .ended (.error f)
  | .ok _ => phase

/-- `main` from one request to the next, `none` after its end. -/
def Client.next (E : Env σ) (c : Client) (w : World σ) : Option (Client × World σ) :=
  let g := c.fileConfig
  match c.phase with
  | .checkIpv4 =>
    let r := ipv4CheckNatWanIp E g c.ipV4 w
    some ({ c with phase := .checkIpv6, ipV4 := r.1 }, r.2)
  | .checkIpv6 =>
    let r := ipv6CheckNatWanIp E g c.ipV6 w
    some ({ c with phase := .domainList, ipV6 := r.1 }, r.2)
  | .domainList =>
    let r := dnspodDomainList E g ⟨c.dnspod, w⟩
    some ({ c with phase := Phase.recordListFilter.afterListing r.1, dnspod := r.2.dnspod },
      r.2.world)
  | .recordListFilter =>
    let r := dnspodRecordListFilter E g ⟨c.dnspod, w⟩
    let phase := Phase.recordDelete (Client.toDelete r.2.dnspod)
    some ({ c with phase := phase.afterListing r.1, dnspod := r.2.dnspod }, r.2.world)
  | .recordDelete (it :: rest) =>
    let s := (dnspodRecordDelete E g.domainName it.id.toUInt32 ⟨c.dnspod, w⟩).2
    some ({ c with phase := .recordDelete rest, dnspod := s.dnspod }, s.world)
  | .recordDelete [] => some ({ c with phase := .modifyIpv4 }, w)
  | .modifyIpv4 =>
    let r := modifyIfMatched E g .classIpv4 c.ipV4 ⟨c.dnspod, w⟩
    some ({ c with phase := .modifyIpv6, ipV4 := r.1, dnspod := r.2.dnspod }, r.2.world)
  | .modifyIpv6 =>
    let r := modifyIfMatched E g .classIpv6 c.ipV6 ⟨c.dnspod, w⟩
    some ({ c with phase := .ended (.ok ()), ipV6 := r.1, dnspod := r.2.dnspod }, r.2.world)
  | .ended _ => none

end DdnsCloudTencent
