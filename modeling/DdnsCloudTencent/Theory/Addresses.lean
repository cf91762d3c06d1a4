import DdnsCloudTencent.Lib.Runs
import DdnsCloudTencent.Theory.Requests

/-!
# The two address checks (develop/check_ip_wan.cpp)

What `checkLocalIp` stores depends on the flag it finds:

- `checkLocalIp_of_invalid`: with the flag down, the first address of the family
  that `ip_valid` accepts is stored and the flag goes up;
- `checkLocalIp_of_valid`: with the flag up, the entries of the family are passed
  over, and the first entry of another family stores the empty buffer.

`match_recognises_iff` and `soundness_iff` follow: the first is about one check
on a fresh object, the second about any sequence of calls on one object.
-/

namespace DdnsCloudTencent

open Cxx Inet

variable {σ : Type}

/-! ## Addresses by family -/

namespace Ipaddress.IpType

/-- The addresses of a family. -/
abbrev Addr : Ipaddress.IpType → Type
  | .classIpv4 => BitVec 32
  | .classIpv6 => BitVec 128

/-- `inet_ntop`. -/
def inetNtop : (t : Ipaddress.IpType) → t.Addr → Bytes
  | .classIpv4 => inetNtop4
  | .classIpv6 => inetNtop6

theorem inetNtop_injective (t : Ipaddress.IpType) : Function.Injective t.inetNtop := by
  cases t with
  | classIpv4 => exact inetNtop4_injective
  | classIpv6 => exact inetNtop6_injective

theorem mem_textChars {t : Ipaddress.IpType} {a : t.Addr} {c : UInt8}
    (hc : c ∈ t.inetNtop a) : c ∈ textChars := by
  cases t with
  | classIpv4 => exact mem_textChars_of_inetNtop4 hc
  | classIpv6 => exact mem_textChars_of_inetNtop6 hc

theorem cStr_inetNtop (t : Ipaddress.IpType) (a : t.Addr) :
    (cStr (t.inetNtop a)).toBytes = t.inetNtop a :=
  cStr_toBytes_of_noNul fun h => absurd (mem_textChars h) (by decide)

/-- `ip_valid` of an address. -/
def isWan (M : Machine) (t : Ipaddress.IpType) (a : t.Addr) : Bool :=
  ipValid M (cStr (t.inetNtop a))

/-- A text that `ip_valid` accepts is not empty. -/
theorem inetNtop_ne_nil {M : Machine} {t : Ipaddress.IpType} {a : t.Addr}
    (h : t.isWan M a = true) : t.inetNtop a ≠ [] := by
  intro hnil
  rw [Ipaddress.IpType.isWan, hnil] at h
  exact Bool.false_ne_true h

end Ipaddress.IpType

/-- The address of an entry of the family `t`. -/
def Ifaddrs.own (ifa : Ifaddrs) : (t : Ipaddress.IpType) → Option t.Addr
  | .classIpv4 => match ifa.ifaAddr with
    | some (.inet a) => some a
    | _ => none
  | .classIpv6 => match ifa.ifaAddr with
    | some (.inet6 a) => some a
    | _ => none

/-- An entry with an address of another family. -/
def Ifaddrs.foreign (t : Ipaddress.IpType) (ifa : Ifaddrs) : Bool :=
  ifa.ifaAddr.isSome && (ifa.own t).isNone

/-- The addresses of a family in an interface list. -/
def addrs (t : Ipaddress.IpType) (ifAddrStruct : List Ifaddrs) : List t.Addr :=
  ifAddrStruct.filterMap fun ifa => ifa.own t

theorem addrs_cons_none {t : Ipaddress.IpType} {ifa : Ifaddrs} (h : ifa.own t = none)
    (rest : List Ifaddrs) : addrs t (ifa :: rest) = addrs t rest :=
  List.filterMap_cons_none h

theorem addrs_cons_some {t : Ipaddress.IpType} {ifa : Ifaddrs} {a : t.Addr}
    (h : ifa.own t = some a) (rest : List Ifaddrs) :
    addrs t (ifa :: rest) = a :: addrs t rest :=
  List.filterMap_cons_some h

/-! ## The loop of check_local_ip -/

/-- One round of the loop, by the kind of the entry. -/
theorem checkLocalIpLoop_cons (M : Machine) (ip : Ipaddress) (ifa : Ifaddrs)
    (rest : List Ifaddrs) :
    checkLocalIpLoop M ip (ifa :: rest) =
      match ifa.own ip.classTypeIp with
      | some a =>
        if ip.validIpwan then checkLocalIpLoop M ip rest
        else if ip.classTypeIp.isWan M a then
          { ip with validIpwan := true, ipLocal := ip.classTypeIp.inetNtop a }
        else checkLocalIpLoop M { ip with validIpwan := false } rest
      | none =>
        if ifa.foreign ip.classTypeIp && ip.validIpwan then { ip with ipLocal := [] }
        else checkLocalIpLoop M ip rest := by
  obtain ⟨t, domain, ipDomain, ipWan, ipDdnsModify, ipLocal, valid⟩ := ip
  obtain ⟨ifaAddr⟩ := ifa
  rw [checkLocalIpLoop]
  cases t with
  | classIpv4 =>
    match ifaAddr with
    | none => rfl
    | some (.inet a) =>
      have htext := Ipaddress.IpType.cStr_inetNtop .classIpv4 a
      cases valid <;> cases hv : Ipaddress.IpType.classIpv4.isWan M a <;>
        simp_all [Ifaddrs.own, Ipaddress.IpType.isWan, Ipaddress.IpType.inetNtop]
    | some (.inet6 a) => cases valid <;> rfl
    | some (.other f) => cases valid <;> rfl
  | classIpv6 =>
    match ifaAddr with
    | none => rfl
    | some (.inet a) => cases valid <;> rfl
    | some (.inet6 a) =>
      have htext := Ipaddress.IpType.cStr_inetNtop .classIpv6 a
      cases valid <;> cases hv : Ipaddress.IpType.classIpv6.isWan M a <;>
        simp_all [Ifaddrs.own, Ipaddress.IpType.isWan, Ipaddress.IpType.inetNtop]
    | some (.other f) => cases valid <;> rfl

/-- The first public address of a family in an interface list, as text. -/
def publicText (M : Machine) (t : Ipaddress.IpType) (ifAddrStruct : List Ifaddrs) :
    Option Bytes :=
  ((addrs t ifAddrStruct).find? (t.isWan M)).map t.inetNtop

/-- With the flag down, the first public address of the family is stored. -/
theorem checkLocalIp_of_invalid (M : Machine) (ifs : List Ifaddrs) {ip : Ipaddress}
    (h : ip.validIpwan = false) :
    ip.checkLocalIp M ifs =
      match publicText M ip.classTypeIp ifs with
      | some text => { ip with validIpwan := true, ipLocal := text }
      | none => ip := by
  have hip : { ip with validIpwan := false } = ip := by rw [← h]
  unfold Ipaddress.checkLocalIp publicText
  induction ifs with
  | nil => rfl
  | cons ifa rest ih =>
    rw [checkLocalIpLoop_cons, hip, h]
    cases hown : ifa.own ip.classTypeIp with
    | none =>
      rw [addrs_cons_none hown]
      simpa using ih
    | some a =>
      rw [addrs_cons_some hown, List.find?_cons]
      cases hwan : ip.classTypeIp.isWan M a with
      | true => simp [hwan]
      | false => simpa [hwan] using ih

/-- With the flag up, the first entry of another family clears the address. -/
theorem checkLocalIp_of_valid (M : Machine) (ifs : List Ifaddrs) {ip : Ipaddress}
    (h : ip.validIpwan = true) :
    ip.checkLocalIp M ifs =
      if ifs.any (·.foreign ip.classTypeIp) then { ip with ipLocal := [] } else ip := by
  unfold Ipaddress.checkLocalIp
  induction ifs with
  | nil => rfl
  | cons ifa rest ih =>
    rw [checkLocalIpLoop_cons, List.any_cons]
    cases hown : ifa.own ip.classTypeIp with
    | none =>
      cases hf : ifa.foreign ip.classTypeIp with
      | true => simp [h]
      | false => simpa [h] using ih
    | some a =>
      have hf : ifa.foreign ip.classTypeIp = false := by simp [Ifaddrs.foreign, hown]
      simpa [hf, h] using ih

/-! ## The comparison -/

theorem match_eq_succ_iff (ip : Ipaddress) :
    ip.matchWanipWithLocalip.1 = returnSucc ↔ ip.validIpwan = true ∧ ip.ipWan = ip.ipLocal := by
  unfold Ipaddress.matchWanipWithLocalip
  split
  · next h => exact iff_of_true rfl h
  · next h => exact iff_of_false (by decide : returnFail ≠ returnSucc) h

theorem match_of_succ {ip : Ipaddress} (h : ip.matchWanipWithLocalip.1 = returnSucc) :
    ip.matchWanipWithLocalip.2 = { ip with ipDdnsModify := ip.ipLocal } := by
  rw [Ipaddress.matchWanipWithLocalip, if_pos ((match_eq_succ_iff ip).mp h)]

theorem match_of_not_succ {ip : Ipaddress} (h : ip.matchWanipWithLocalip.1 ≠ returnSucc) :
    ip.matchWanipWithLocalip = (returnFail, ip) := by
  rw [Ipaddress.matchWanipWithLocalip, if_neg fun hc => h ((match_eq_succ_iff ip).mpr hc)]

/-! ## One check on a fresh object -/

/-- The request of `check_nat_wan_ip`. -/
def ipCheckRequest (url : Bytes) : Request := ⟨cStr url, bytes "GET", none, [cStr (bytes ": ")]⟩

/-- `check_local_ip`, `check_nat_wan_ip` and `match_wanip_with_localip`. -/
def checkAndMatch (E : Env σ) (t : Ipaddress.IpType) (domain url : Bytes)
    (ifAddrStruct : List Ifaddrs) (w : World σ) : Int × Ipaddress :=
  let ip := (Ipaddress.new t domain).checkLocalIp E.machine ifAddrStruct
  (ip.checkNatWanIp E url w).1.matchWanipWithLocalip

/-- The line end of a reply is stripped and nothing else of its text. -/
theorem decodeIpwan_text {text eol : Bytes} (htext : ∀ c ∈ text, c ≠ CR ∧ c ≠ LF)
    (heol : ∀ c ∈ eol, c = CR ∨ c = LF) (ip : Ipaddress) :
    decodeIpwan (text ++ eol) ip = { ip with ipWan := text } := by
  have hkeep : ∀ c ∈ text.reverse, (c == LF || c == CR) = false := by
    intro c hc
    obtain ⟨hcr, hlf⟩ := htext c (List.mem_reverse.mp hc)
    simp [hlf, hcr]
  have hstrip : (text ++ eol).rdropWhile (fun c => c == LF || c == CR) = text := by
    unfold List.rdropWhile
    rw [List.reverse_append, List.dropWhile_append_of_pos]
    · cases hrev : text.reverse with
      | nil => rw [← List.reverse_reverse text, hrev]; rfl
      | cons c s =>
        rw [List.dropWhile_cons, hkeep c (hrev ▸ List.mem_cons_self)]
        rw [← hrev]
        simp
    · intro c hc
      rcases heol c (List.mem_reverse.mp hc) with rfl | rfl <;> rfl
  rw [decodeIpwan, hstrip]

theorem decodeIpwan_inetNtop (t : Ipaddress.IpType) (a : t.Addr) {eol : Bytes}
    (heol : ∀ c ∈ eol, c = CR ∨ c = LF) (ip : Ipaddress) :
    decodeIpwan (t.inetNtop a ++ eol) ip = { ip with ipWan := t.inetNtop a } := by
  refine decodeIpwan_text (fun c hc => ?_) heol ip
  have htext := Ipaddress.IpType.mem_textChars hc
  constructor <;> rintro rfl <;> revert htext <;> decide

/-- The text reported by the service is stored without its line end. -/
theorem checkNatWanIp_of_reply (E : Env σ) {t : Ipaddress.IpType} {url : Bytes} {w : World σ}
    {a : t.Addr} {eol : Bytes} (heol : ∀ c ∈ eol, c = CR ∨ c = LF)
    (hreply : (E.perform (ipCheckRequest url) w.net).1.body = t.inetNtop a ++ eol)
    (ip : Ipaddress) : (ip.checkNatWanIp E url w).1 = { ip with ipWan := t.inetNtop a } := by
  rw [← decodeIpwan_inetNtop t a heol ip, ← hreply]
  rfl

/-- The three calls succeed with the address that the service reports when it is
the first public one of its family in the list, and fail otherwise. -/
theorem checkAndMatch_iff (E : Env σ) (t : Ipaddress.IpType) (domain url : Bytes)
    (ifs : List Ifaddrs) (w : World σ) (a : t.Addr) {eol : Bytes}
    (heol : ∀ c ∈ eol, c = CR ∨ c = LF)
    (hreply : (E.perform (ipCheckRequest url) w.net).1.body = t.inetNtop a ++ eol) :
    ((checkAndMatch E t domain url ifs w).1 = returnSucc ∧
        (checkAndMatch E t domain url ifs w).2.ipDdnsModify = t.inetNtop a) ↔
      (addrs t ifs).find? (t.isWan E.machine) = some a := by
  have hfresh : (Ipaddress.new t domain).validIpwan = false := rfl
  have hclass : (Ipaddress.new t domain).classTypeIp = t := rfl
  -- a text stands for one address
  have htext : publicText E.machine t ifs = some (t.inetNtop a) ↔
      (addrs t ifs).find? (t.isWan E.machine) = some a :=
    (Option.map_injective (Ipaddress.IpType.inetNtop_injective t)).eq_iff' rfl
  rw [← htext]
  simp only [checkAndMatch, checkNatWanIp_of_reply E heol hreply,
    checkLocalIp_of_invalid E.machine ifs hfresh, hclass]
  cases publicText E.machine t ifs with
  | none =>
    refine iff_of_false (fun h => ?_) (by simp)
    exact Bool.false_ne_true ((match_eq_succ_iff _).mp h.1).1
  | some text =>
    constructor
    · intro h
      have heq : t.inetNtop a = text := ((match_eq_succ_iff _).mp h.1).2
      rw [heq]
    · intro h
      obtain rfl := Option.some.inj h
      have hsucc := (match_eq_succ_iff { Ipaddress.new t domain with
        ipWan := t.inetNtop a, validIpwan := true, ipLocal := t.inetNtop a }).mpr ⟨rfl, rfl⟩
      exact ⟨hsucc, congrArg Ipaddress.ipDdnsModify (match_of_succ hsucc)⟩

/-- **When the host's public address is recognised.** The service reports the
public address `a`. The check succeeds with it exactly if the host has it, as
long as `ip_valid` rejects every address of the family before it. -/
theorem match_recognises_iff (E : Env σ) (t : Ipaddress.IpType) (domain url : Bytes)
    (ifs : List Ifaddrs) (w : World σ) (a : t.Addr) (eol : Bytes)
    (hwan : t.isWan E.machine a = true) (heol : ∀ c ∈ eol, c = CR ∨ c = LF)
    (hreply : (E.perform (ipCheckRequest url) w.net).1.body = t.inetNtop a ++ eol) :
    (((checkAndMatch E t domain url ifs w).1 = returnSucc ∧
        (checkAndMatch E t domain url ifs w).2.ipDdnsModify = t.inetNtop a) ↔
      a ∈ addrs t ifs) ↔
    (a ∈ addrs t ifs → ∃ before after, addrs t ifs = before ++ a :: after ∧
      ∀ b ∈ before, t.isWan E.machine b = false) := by
  rw [checkAndMatch_iff E t domain url ifs w a heol hreply]
  have hfirst : (addrs t ifs).find? (t.isWan E.machine) = some a ↔
      ∃ before after, addrs t ifs = before ++ a :: after ∧
        ∀ b ∈ before, t.isWan E.machine b = false := by
    simp [List.find?_eq_some_iff_append, hwan]
  constructor
  · intro h ha
    exact hfirst.mp (h.mpr ha)
  · intro h
    exact ⟨List.mem_of_find?_eq_some, fun ha => hfirst.mpr (h ha)⟩

/-- `2001:db8::1` and `2001:db8::2`, both public to `ip_valid`. -/
def firstPublic : Ipaddress.IpType.Addr .classIpv6 := 0x20010db8000000000000000000000001#128

@[inherit_doc firstPublic]
def secondPublic : Ipaddress.IpType.Addr .classIpv6 := 0x20010db8000000000000000000000002#128

/-- A host with both, behind the loopback and a private IPv4 address. -/
def twoPublicIfaddrs : List Ifaddrs :=
  [⟨some (.inet6 1)⟩, ⟨some (.inet 0xC0A80002)⟩, ⟨some (.inet6 firstPublic)⟩,
    ⟨some (.inet6 secondPublic)⟩]

/-- The first of the two public addresses is recognised. -/
theorem match_recognises_first :
    let r := checkAndMatch (replyEnv (bytes "2001:db8::1\r\n")) .classIpv6 [] [] twoPublicIfaddrs
      ⟨(), [], 0⟩
    (r.1 = returnSucc ∧ r.2.ipDdnsModify = Ipaddress.IpType.inetNtop .classIpv6 firstPublic) ↔
      firstPublic ∈ addrs .classIpv6 twoPublicIfaddrs := by
  have hwan : Ipaddress.IpType.isWan (replyEnv (bytes "2001:db8::1\r\n")).machine .classIpv6
      firstPublic = true := by decide +kernel
  have heol : ∀ c ∈ bytes "\r\n", c = CR ∨ c = LF := by decide
  have hreply : bytes "2001:db8::1\r\n" =
      Ipaddress.IpType.inetNtop .classIpv6 firstPublic ++ bytes "\r\n" := by decide +kernel
  refine (match_recognises_iff (replyEnv (bytes "2001:db8::1\r\n")) .classIpv6 [] []
    twoPublicIfaddrs ⟨(), [], 0⟩ firstPublic (bytes "\r\n") hwan heol hreply).mpr fun _ => ?_
  have hbefore : ∀ b ∈ [(1#128 : Ipaddress.IpType.Addr .classIpv6)], Ipaddress.IpType.isWan
      (replyEnv (bytes "2001:db8::1\r\n")).machine .classIpv6 b = false := by
    intro b hb
    rw [List.mem_singleton.mp hb]
    decide +kernel
  exact ⟨[1#128], [secondPublic], rfl, hbefore⟩

/-- The second is on the host and reported by the service, and is not recognised. -/
theorem match_misses_second :
    let E := replyEnv (bytes "2001:db8::2\n")
    let r := checkAndMatch E .classIpv6 [] [] twoPublicIfaddrs ⟨(), [], 0⟩
    Ipaddress.IpType.isWan E.machine .classIpv6 secondPublic = true ∧
      secondPublic ∈ addrs .classIpv6 twoPublicIfaddrs ∧ r.1 = returnFail ∧
      ¬ ((r.1 = returnSucc ∧ r.2.ipDdnsModify =
          Ipaddress.IpType.inetNtop .classIpv6 secondPublic) ↔
        secondPublic ∈ addrs .classIpv6 twoPublicIfaddrs) := by
  decide +kernel

/-! ## Repeated checks on one object -/

/-- A call on the object. -/
inductive Ipaddress.Call where
  | checkLocalIp (ifAddrStruct : List Ifaddrs)
  | checkNatWanIp (url : Bytes)
  | matchWanipWithLocalip

/-- The object, the world, and the interface entries of all lists so far. -/
structure Checked (σ : Type) where
  ip : Ipaddress
  world : World σ
  seen : List Ifaddrs

/-- One call. The reply of `check_nat_wan_ip` is whatever the network gives. -/
def Checked.step (E : Env σ) (s : Checked σ) : Ipaddress.Call → Checked σ
  | .checkLocalIp ifs => ⟨s.ip.checkLocalIp E.machine ifs, s.world, s.seen ++ ifs⟩
  | .checkNatWanIp url => ⟨(s.ip.checkNatWanIp E url s.world).1,
      (s.ip.checkNatWanIp E url s.world).2, s.seen⟩
  | .matchWanipWithLocalip => ⟨s.ip.matchWanipWithLocalip.2, s.world, s.seen⟩

/-- The object before any call. -/
def Checked.new (t : Ipaddress.IpType) (domain : Bytes) (w : World σ) : Checked σ :=
  ⟨Ipaddress.new t domain, w, []⟩

/-- The nonempty text of an address of the family that `ip_valid` accepts and
that was in an interface list. -/
def Checked.Known (M : Machine) (t : Ipaddress.IpType) (s : Checked σ) (text : Bytes) : Prop :=
  text ≠ [] ∧ ∃ a ∈ addrs t s.seen, t.isWan M a = true ∧ text = t.inetNtop a

/-- What the address state should be good for at any time. -/
structure Checked.Sound (M : Machine) (t : Ipaddress.IpType) (s : Checked σ) : Prop where
  known : s.ip.validIpwan = true → s.Known M t s.ip.ipLocal
  succ : s.ip.matchWanipWithLocalip.1 = returnSucc →
    s.Known M t s.ip.matchWanipWithLocalip.2.ipDdnsModify
  fail : s.ip.matchWanipWithLocalip.1 = returnFail →
    s.ip.matchWanipWithLocalip.2.ipDdnsModify = s.ip.ipDdnsModify

/-- The guard: no second check over a list with an address of another family. -/
def Checked.NoForeign (t : Ipaddress.IpType) (s : Checked σ) : Ipaddress.Call → Prop
  | .checkLocalIp ifs => s.ip.validIpwan = true → ∀ ifa ∈ ifs, ifa.foreign t = false
  | _ => True

/-- The invariant behind `Sound`. -/
def Checked.Inv (M : Machine) (t : Ipaddress.IpType) (s : Checked σ) : Prop :=
  s.ip.classTypeIp = t ∧ (s.ip.validIpwan = true → s.Known M t s.ip.ipLocal)

/-- `Sound` is the invariant at work: the comparison stores `ip_local` or nothing. -/
theorem Checked.Inv.sound {M : Machine} {t : Ipaddress.IpType} {s : Checked σ}
    (h : s.Inv M t) : s.Sound M t where
  known := h.2
  succ hsucc := by
    rw [match_of_succ hsucc]
    exact h.2 ((match_eq_succ_iff s.ip).mp hsucc).1
  fail hfail := by
    have hne : s.ip.matchWanipWithLocalip.1 ≠ returnSucc := by
      rw [hfail]
      decide
    rw [match_of_not_succ hne]

/-- Entries seen earlier stay seen. -/
theorem Checked.Known.mono {M : Machine} {t : Ipaddress.IpType} {s s' : Checked σ}
    {text : Bytes} (h : s.Known M t text) (hsub : ∀ a ∈ addrs t s.seen, a ∈ addrs t s'.seen) :
    s'.Known M t text := by
  obtain ⟨hne, a, ha, hwan, htext⟩ := h
  exact ⟨hne, a, hsub a ha, hwan, htext⟩

theorem mem_addrs_append_left {t : Ipaddress.IpType} {ifs ifs' : List Ifaddrs} {a : t.Addr}
    (h : a ∈ addrs t ifs) : a ∈ addrs t (ifs ++ ifs') := by
  rw [addrs, List.filterMap_append]
  exact List.mem_append_left _ h

theorem mem_addrs_append_right {t : Ipaddress.IpType} {ifs ifs' : List Ifaddrs} {a : t.Addr}
    (h : a ∈ addrs t ifs') : a ∈ addrs t (ifs ++ ifs') := by
  rw [addrs, List.filterMap_append]
  exact List.mem_append_right _ h

/-- A guarded call keeps the invariant. -/
theorem Checked.Inv.step {E : Env σ} {t : Ipaddress.IpType} {s : Checked σ}
    (h : s.Inv E.machine t) {c : Ipaddress.Call} (hg : s.NoForeign t c) :
    (s.step E c).Inv E.machine t := by
  obtain ⟨hclass, hknown⟩ := h
  cases c with
  | checkLocalIp ifs =>
    show (Checked.mk (s.ip.checkLocalIp E.machine ifs) s.world (s.seen ++ ifs)).Inv E.machine t
    cases hvalid : s.ip.validIpwan with
    | true =>
      -- with the flag up only an address of another family has an effect
      have hnone : ifs.any (·.foreign s.ip.classTypeIp) = false := by
        rw [hclass, List.any_eq_false]
        intro ifa hifa
        rw [hg hvalid ifa hifa]
        exact Bool.false_ne_true
      rw [checkLocalIp_of_valid _ _ hvalid, hnone]
      exact ⟨hclass, fun hv => (hknown hv).mono fun a => mem_addrs_append_left⟩
    | false =>
      rw [checkLocalIp_of_invalid _ _ hvalid, hclass]
      cases hfind : (addrs t ifs).find? (t.isWan E.machine) with
      | none =>
        rw [publicText, hfind]
        exact ⟨hclass, fun hv => absurd (hvalid.symm.trans hv) Bool.false_ne_true⟩
      | some a =>
        have hwan : t.isWan E.machine a = true := List.find?_some hfind
        rw [publicText, hfind]
        exact ⟨rfl, fun _ => ⟨Ipaddress.IpType.inetNtop_ne_nil hwan, a,
          mem_addrs_append_right (List.mem_of_find?_eq_some hfind), hwan, rfl⟩⟩
  | checkNatWanIp url => exact ⟨hclass, hknown⟩
  | matchWanipWithLocalip =>
    show (Checked.mk s.ip.matchWanipWithLocalip.2 s.world s.seen).Inv E.machine t
    by_cases hsucc : s.ip.matchWanipWithLocalip.1 = returnSucc
    · rw [match_of_succ hsucc]
      exact ⟨hclass, hknown⟩
    · rw [match_of_not_succ hsucc]
      exact ⟨hclass, hknown⟩

/-- A call outside the guard clears the address while the flag stays up. -/
theorem Checked.Inv.not_sound_step {E : Env σ} {t : Ipaddress.IpType} {s : Checked σ}
    (h : s.Inv E.machine t) {c : Ipaddress.Call} (hg : ¬ s.NoForeign t c) :
    ¬ (s.step E c).Sound E.machine t := by
  cases c with
  | checkLocalIp ifs =>
    simp only [Checked.NoForeign, Classical.not_imp, not_forall, Bool.not_eq_false] at hg
    obtain ⟨hvalid, ifa, hifa, hforeign⟩ := hg
    have hany : ifs.any (·.foreign s.ip.classTypeIp) = true := by
      rw [h.1]
      exact List.any_eq_true.mpr ⟨ifa, hifa, hforeign⟩
    -- the empty buffer is stored over the address
    have hclear : s.ip.checkLocalIp E.machine ifs = { s.ip with ipLocal := [] } := by
      rw [checkLocalIp_of_valid _ _ hvalid, hany]
      rfl
    intro hsound
    have hknown := hsound.known
    simp only [Checked.step, hclear] at hknown
    exact (hknown hvalid).1 rfl
  | checkNatWanIp url => exact absurd trivial hg
  | matchWanipWithLocalip => exact absurd trivial hg

/-- **When the address state stays sound.** In the runs in which no check of the
interfaces is made with the flag up and an address of another family in its
list, and in no others. -/
theorem soundness_iff (E : Env σ) (t : Ipaddress.IpType) (domain : Bytes) (w : World σ)
    (calls : List Ipaddress.Call) :
    Runs.Always (Checked.step E) (Checked.Sound E.machine t) (Checked.new t domain w) calls ↔
      Runs.Guarded (Checked.step E) (Checked.NoForeign t) (Checked.new t domain w) calls := by
  have hinit : (Checked.new t domain w).Inv E.machine t :=
    ⟨rfl, fun h => absurd h Bool.false_ne_true⟩
  exact Runs.always_iff_guarded (fun _ h => h.sound) (fun _ _ _ h hg => h.step hg)
    (fun _ _ h hg => h.not_sound_step hg) hinit

/-- The check repeated on a host with a public IPv4 address whose interface list
starts with a link-layer address: `valid_ipwan` is up and `ip_local` empty. -/
theorem recheck_not_sound :
    let E := replyEnv []
    let ifs : List Ifaddrs := [⟨some (.other 17)⟩, ⟨some (.inet 0x08080808)⟩]
    let calls : List Ipaddress.Call := [.checkLocalIp ifs, .checkLocalIp ifs]
    let s := calls.foldl (Checked.step E) (Checked.new .classIpv4 [] ⟨(), [], 0⟩)
    s.ip.validIpwan = true ∧ s.ip.ipLocal = [] ∧
      ¬ Runs.Always (Checked.step E) (Checked.Sound E.machine .classIpv4)
        (Checked.new .classIpv4 [] ⟨(), [], 0⟩) calls := by
  intro E ifs calls s
  have hvalid : s.ip.validIpwan = true := by decide +kernel
  have hempty : s.ip.ipLocal = [] := by decide +kernel
  refine ⟨hvalid, hempty, fun h => ?_⟩
  have hsound : s.Sound E.machine .classIpv4 := Runs.always_iff_prefix.mp h calls List.prefix_rfl
  exact (hsound.known hvalid).1 hempty

end DdnsCloudTencent
