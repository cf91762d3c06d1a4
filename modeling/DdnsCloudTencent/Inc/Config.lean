import DdnsCloudTencent.Lib.Lines

/-!
# Configuration (inc/config.h)

`Config` is `config_t`, the type of the global `g_file_config`. The two readers
of `./ddns_config.txt` go through the file line by line in the same way and
differ in the keys they look for: `fileConfigRead` (main.cpp) fills `Config`,
`fileSecurityConfigRead` (custom_cloudTencent.cpp) the credentials.
-/

namespace DdnsCloudTencent

open Cxx

/-- `TENCENT_REQUEST_URL`. -/
def tencentRequestUrl : Bytes := bytes "dnspod.tencentcloudapi.com"

/-- `TENCENT_REQUEST_DEF_VERSION`. -/
def tencentRequestDefVersion : Bytes := bytes "2021-03-23"

/-- `TENCENT_REQUEST_DEF_CONTENT_TYPE`. -/
def tencentRequestDefContentType : Bytes := bytes "application/json"

/-- `config_t` (config.h:26). -/
structure Config where
  domainName : Bytes
  domainSubname : Bytes
  domainFull : Bytes
  checkIpUrlIpv4 : Bytes
  checkIpUrlIpv6 : Bytes
deriving DecidableEq

/-- `g_file_config` before it is read. -/
def Config.empty : Config := ⟨[], [], [], [], []⟩

/-- What both readers do to a line first: drop the `\r` of a Windows text, and
everything from the `;` that ends an entry. -/
def trimLine (line : Bytes) : Bytes :=
  let line := if line.getLast? = some CR then line.dropLast else line
  line.takeWhile (· != 59)

/-- One round of the loop of `file_config_read` (main.cpp:45). -/
def fileConfigReadLine (g : Config) (line : Bytes) : Config :=
  let line := trimLine line
  if line.take 12 = bytes "domain_name=" then { g with domainName := line.drop 12 }
  else if line.take 15 = bytes "domain_subname=" then { g with domainSubname := line.drop 15 }
  else if line.take 18 = bytes "check_ip_url_ipv4=" then
    { g with checkIpUrlIpv4 := line.drop 18 }
  else if line.take 18 = bytes "check_ip_url_ipv6=" then
    { g with checkIpUrlIpv6 := line.drop 18 }
  else g

/-- `file_config_read` (main.cpp:36) on the contents of the file. -/
def fileConfigRead (config : Bytes) (g : Config) : Config :=
  let g := (getlines config).foldl fileConfigReadLine g
  if g.domainSubname ≠ [] then
    { g with domainFull := g.domainSubname ++ bytes "." ++ g.domainName }
  else { g with domainFull := g.domainName }

/-- `security_key` and `security_id`. -/
structure Credentials where
  securityKey : Bytes
  securityId : Bytes
deriving DecidableEq

/-- One round of the loop of `file_security_config_read` (custom_cloudTencent.cpp:94). -/
def fileSecurityConfigReadLine (c : Credentials) (line : Bytes) : Credentials :=
  let line := trimLine line
  if line.take 4 = bytes "key=" then { c with securityKey := line.drop 4 }
  else if line.take 6 = bytes "keyid=" then { c with securityId := line.drop 6 }
  else c

/-- `cloudTencent_dnspod::file_security_config_read` (custom_cloudTencent.cpp:85). -/
def fileSecurityConfigRead (config : Bytes) (c : Credentials) : Credentials :=
  (getlines config).foldl fileSecurityConfigReadLine c

end DdnsCloudTencent
