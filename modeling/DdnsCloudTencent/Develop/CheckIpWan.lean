import DdnsCloudTencent.Lib.Inet
import DdnsCloudTencent.Util.CurlRequest

/-!
# The host's own addresses (develop/check_ip_wan.cpp)

`Ipaddress` holds what one family's check has found: the address the IP-check
service reports (`ipWan`), the public address of a local interface (`ipLocal`)
and whether there is one (`validIpwan`).

- `checkLocalIp` walks the interface list as `getifaddrs` returns it;
- `checkNatWanIp` asks the service and strips the line end of its reply;
- `matchWanipWithLocalip` compares the two.

Only the names of the entries, which are printed and not used, are left out.
-/

namespace DdnsCloudTencent

open Cxx Inet

/-- `_RETURN_SUCC`. -/
def returnSucc : Int := 0

/-- `_RETURN_FAIL`. -/
def returnFail : Int := -1

/-- `ifa_addr`, by its `sa_family`. -/
inductive Sockaddr where
  | inet (sinAddr : BitVec 32)
  | inet6 (sin6Addr : BitVec 128)
  | other (saFamily : Nat)
deriving DecidableEq

/-- `struct ifaddrs`. -/
structure Ifaddrs where
  ifaAddr : Option Sockaddr
deriving DecidableEq

/-- `Ipaddress::ip_type_t`. -/
inductive Ipaddress.IpType where
  | classIpv6
  | classIpv4
deriving DecidableEq

/-- `class Ipaddress` (check_ip_wan.hpp:13). -/
structure Ipaddress where
  classTypeIp : Ipaddress.IpType
  domain : Bytes
  ipDomain : Bytes
  ipWan : Bytes
  ipDdnsModify : Bytes
  ipLocal : Bytes
  validIpwan : Bool
deriving DecidableEq

/-- The constructors of `_IPv4` and `_IPv6` (check_ip_wan.hpp:71, 94). -/
def Ipaddress.new (t : Ipaddress.IpType) (domain : Bytes) : Ipaddress :=
  ⟨t, domain, [], [], [], [], false⟩

/-- `isIPv4_wan` (check_ip_wan.cpp:125). A text that `inet_pton` rejects leaves
`addr` as it was on the stack. -/
def isIPv4Wan (M : Machine) (ip : CStr) : Bool :=
  let addr := (inetPton4 ip.toBytes).getD M.inAddr
  let ipHex := addr.toNat
  if (ipHex > 0x0A000000 ∧ ipHex < 0x0AFFFFFF) ∨
      (ipHex > 0xAC100000 ∧ ipHex < 0xAC1FFFFF) ∨
      (ipHex > 0xC0A80000 ∧ ipHex < 0xC0A8FFFF) ∨
      (ipHex > 0x7F000000 ∧ ipHex < 0x7FFFFFFF) then false
  else true

/-- `isIPv6_wan` (check_ip_wan.cpp:159): the first colon has to be the fifth of
the first 32 characters, and the group before it starts with the bits 001. -/
def isIPv6Wan (ipv6 : CStr) : Bool :=
  match (ipv6.toBytes.take 32).findIdx? (· == colon) with
  | some 4 =>
    let num := strtol16 (ipv6.toBytes.take 4) % 2 ^ 16
    num / 2 ^ 13 == 1
  | _ => false

/-- The loop of `ip_valid` over the rest of the text. -/
def ipValidLoop (M : Machine) (ip : CStr) : Bytes → Bool
  | [] => false
  | c :: s =>
    if c = dot then isIPv4Wan M ip
    else if c = colon then isIPv6Wan ip
    else ipValidLoop M ip s

/-- `ip_valid` (check_ip_wan.cpp:197). -/
def ipValid (M : Machine) (ip : CStr) : Bool := ipValidLoop M ip ip.toBytes

/-- The loop of `Ipaddress::check_local_ip` over the rest of the list. -/
def checkLocalIpLoop (M : Machine) (ip : Ipaddress) : List Ifaddrs → Ipaddress
  | [] => ip
  | ifa :: rest =>
    -- the end of the body: store the buffer and leave once a public address is known
    let finish (ip : Ipaddress) (addressBuffer : CStr) : Ipaddress :=
      if ip.validIpwan then { ip with ipLocal := addressBuffer.toBytes }
      else checkLocalIpLoop M ip rest
    match ifa.ifaAddr with
    | none => checkLocalIpLoop M ip rest
    | some addr =>
      match addr, ip.classTypeIp with
      | .inet sinAddr, .classIpv4 =>
        if ip.validIpwan then checkLocalIpLoop M ip rest
        else
          let addressBuffer := cStr (inetNtop4 sinAddr)
          finish { ip with validIpwan := ipValid M addressBuffer } addressBuffer
      | .inet6 sin6Addr, .classIpv6 =>
        if ip.validIpwan then checkLocalIpLoop M ip rest
        else
          let addressBuffer := cStr (inetNtop6 sin6Addr)
          finish { ip with validIpwan := ipValid M addressBuffer } addressBuffer
      | _, _ => finish ip (cStr [])

/-- `Ipaddress::check_local_ip` (check_ip_wan.cpp:214). -/
def Ipaddress.checkLocalIp (M : Machine) (ifAddrStruct : List Ifaddrs) (ip : Ipaddress) :
    Ipaddress :=
  checkLocalIpLoop M ip ifAddrStruct

/-- `decode_ipwan` (check_ip_wan.cpp:61). -/
def decodeIpwan (src : Bytes) (ip : Ipaddress) : Ipaddress :=
  { ip with ipWan := src.rdropWhile fun c => c == LF || c == CR }

variable {σ : Type}

/-- `check_nat_wan_ip` of either class (check_ip_wan.cpp:77, 90) with its URL. -/
def Ipaddress.checkNatWanIp (E : Env σ) (url : Bytes) (ip : Ipaddress) (w : World σ) :
    Ipaddress × World σ :=
  let headers := [cStr (bytes ": ")]
  let r := curlRequest E url (bytes "GET") none headers w
  (decodeIpwan r.1 ip, r.2)

/-- `Ipaddress::match_wanip_with_localip` (check_ip_wan.cpp:105). -/
def Ipaddress.matchWanipWithLocalip (ip : Ipaddress) : Int × Ipaddress :=
  if ip.validIpwan = true ∧ ip.ipWan = ip.ipLocal then
    (returnSucc, { ip with ipDdnsModify := ip.ipLocal })
  else (returnFail, ip)

end DdnsCloudTencent
