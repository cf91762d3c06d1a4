import DdnsCloudTencent.Develop.CheckIpWan
import DdnsCloudTencent.Develop.CloudTencent

/-!
# One run of the program (main.cpp)

`mainStart` is `main` up to the construction of the DNSPod client: read the
configuration, look for public addresses, ask the two IP-check services.
`mainUpdate` is `main` after the record listing: delete the surplus records,
then modify the kept one of each family whose address was confirmed. `main`
runs the two listings in between and goes on whatever they return; a run ends
early only where a listing's decoder faults.
-/

namespace DdnsCloudTencent

open Cxx

variable {σ : Type}

/-- The process: the globals, singletons and the world. -/
structure Process (σ : Type) where
  fileConfig : Config
  ipV4 : Ipaddress
  ipV6 : Ipaddress
  session : Session σ

/-- `_IPv4::check_nat_wan_ip` (check_ip_wan.cpp:77). -/
def ipv4CheckNatWanIp (E : Env σ) (g : Config) (ip : Ipaddress) (w : World σ) :
    Ipaddress × World σ :=
  ip.checkNatWanIp E g.checkIpUrlIpv4 w

/-- `_IPv6::check_nat_wan_ip` (check_ip_wan.cpp:90). -/
def ipv6CheckNatWanIp (E : Env σ) (g : Config) (ip : Ipaddress) (w : World σ) :
    Ipaddress × World σ :=
  ip.checkNatWanIp E g.checkIpUrlIpv6 w

/-- `main` (main.cpp:85) down to `cloudTencent_dnspod::getInstance`, with
`check_demo_http_check` (check_ip_wan.cpp:265). -/
def mainStart (E : Env σ) (config : Bytes) (ifAddrStruct : List Ifaddrs) (w : World σ) :
    Process σ :=
  let g := fileConfigRead config Config.empty
  let ipV4 := (Ipaddress.new .classIpv4 g.domainFull).checkLocalIp E.machine ifAddrStruct
  let ipV6 := (Ipaddress.new .classIpv6 g.domainFull).checkLocalIp E.machine ifAddrStruct
  let v4 := ipv4CheckNatWanIp E g ipV4 w
  let v6 := ipv6CheckNatWanIp E g ipV6 v4.2
  ⟨g, v4.1, v6.1, ⟨Dnspod.new config, v6.2⟩⟩

/-- One of the two `if (_RETURN_SUCC == …)` blocks at the end of `main`. -/
def modifyIfMatched (E : Env σ) (g : Config) (t : Dnspod.IpType) (ip : Ipaddress)
    (s : Session σ) : Ipaddress × Session σ :=
  let r := ip.matchWanipWithLocalip
  if r.1 = returnSucc then (r.2, (dnspodRecordModify E g t r.2.ipDdnsModify s).2) else (r.2, s)

/-- `main` after `dnspod_record_list_filter` (main.cpp:107). -/
def mainUpdate (E : Env σ) (p : Process σ) : Process σ :=
  let s := recordDeleteRemainOne E p.fileConfig p.session
  let v4 := modifyIfMatched E p.fileConfig .classIpv4 p.ipV4 s
  let v6 := modifyIfMatched E p.fileConfig .classIpv6 p.ipV6 v4.2
  { p with ipV4 := v4.1, ipV6 := v6.1, session := v6.2 }

/-- `main` (main.cpp:85). -/
def main (E : Env σ) (config : Bytes) (ifAddrStruct : List Ifaddrs) (w : World σ) :
    Except Fault Unit × Process σ :=
  let p := mainStart E config ifAddrStruct w
  -- the listings return `bool`, which `main` ignores
  match dnspodDomainList E p.fileConfig p.session with
  | (.error f, s) => (.error f, { p with session := s })
  | (.ok _, s) =>
    match dnspodRecordListFilter E p.fileConfig s with
    | (.error f, s) => (.error f, { p with session := s })
    | (.ok _, s) => (.ok (), mainUpdate E { p with session := s })

end DdnsCloudTencent
