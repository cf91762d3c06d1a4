import DdnsCloudTencent.Theory.Addresses
import DdnsCloudTencent.Theory.Operations

/-!
# The requests of one run of main (main.cpp:85)

A run sends the two IP checks, the two listings, one deletion for each surplus
record and at most one modification for each family (`mainSent_eq`). What is
deleted and modified is decided by two things only: the vectors after the
listing (`listed`) and the addresses that were confirmed (`confirmed`).
-/

namespace DdnsCloudTencent

open Cxx

variable {σ : Type}

/-- The family of addresses that belongs to a family of records. -/
def Dnspod.IpType.addrType : Dnspod.IpType → Ipaddress.IpType
  | .classIpv4 => .classIpv4
  | .classIpv6 => .classIpv6

/-- The address that an object would have set. -/
def Ipaddress.confirmed (ip : Ipaddress) : Option Bytes :=
  if ip.matchWanipWithLocalip.1 = returnSucc then some ip.ipLocal else none

theorem Ipaddress.confirmed_eq_some_iff (ip : Ipaddress) (text : Bytes) :
    ip.confirmed = some text ↔
      ip.validIpwan = true ∧ ip.ipWan = ip.ipLocal ∧ ip.ipLocal = text := by
  unfold Ipaddress.confirmed
  rw [Option.ite_none_right_eq_some, match_eq_succ_iff, Option.some.injEq, and_assoc]

section Phases

variable (E : Env σ) (config : Bytes) (ifs : List Ifaddrs) (w : World σ)

/-- `g_file_config` of a run. -/
def mainConfig : Config := fileConfigRead config Config.empty

/-- The session after the domain listing. -/
def afterDomainList : Session σ :=
  (dnspodDomainList E (mainConfig config) (mainStart E config ifs w).session).2

/-- The body of the reply to the record listing. -/
def listingReply : Bytes :=
  (postRecordListFilter E (mainConfig config) (afterDomainList E config ifs w)).1

/-- The record listing: its return value and the session after it. -/
def afterListing : Except Fault Bool × Session σ :=
  dnspodRecordListFilter E (mainConfig config) (afterDomainList E config ifs w)

/-- The requests of a run. -/
def mainSent : List Request :=
  (main E config ifs w).2.session.world.sent.drop w.sent.length

/-- The address object of a family as the first half of `main` leaves it. -/
def mainIp (t : Dnspod.IpType) : Ipaddress :=
  match t with
  | .classIpv4 => (mainStart E config ifs w).ipV4
  | .classIpv6 => (mainStart E config ifs w).ipV6

/-- The address that a run confirms for a family. -/
def confirmed (t : Dnspod.IpType) : Option Bytes := (mainIp E config ifs w t).confirmed

/-- The three ways a run of `main` goes. -/
theorem main_cases :
    (∃ f, main E config ifs w =
        (.error f, { mainStart E config ifs w with session := afterDomainList E config ifs w })) ∨
      (∃ f, main E config ifs w =
        (.error f, { mainStart E config ifs w with
          session := (afterListing E config ifs w).2 })) ∨
      ∃ b, (afterListing E config ifs w).1 = .ok b ∧ main E config ifs w =
        (.ok (), mainUpdate E { mainStart E config ifs w with
          session := (afterListing E config ifs w).2 }) := by
  have hconfig : (mainStart E config ifs w).fileConfig = mainConfig config := rfl
  simp only [main, hconfig, afterListing, afterDomainList]
  cases dnspodDomainList E (mainConfig config) (mainStart E config ifs w).session with
  | mk r s =>
    cases r with
    | error f => exact .inl ⟨f, rfl⟩
    | ok b =>
      right
      simp only
      cases dnspodRecordListFilter E (mainConfig config) s with
      | mk r' s' =>
        cases r' with
        | error f => exact .inl ⟨f, rfl⟩
        | ok b' => exact .inr ⟨b', rfl, rfl⟩

end Phases

/-! ## The modification at the end -/

/-- The requests of a modification: one where there is an address and a record. -/
def Modifies (g : Config) (records : List RecordListT) (ip : Option Bytes)
    (reqs : List Request) : Prop :=
  match ip, records with
  | some ip, record0 :: _ =>
    ∃ req : Request, reqs = [req] ∧
      req.Is (bytes "ModifyRecord") (recordModifyPayload g record0 ip)
  | _, _ => reqs = []

theorem sends_modifyIfMatched (E : Env σ) (g : Config) (t : Dnspod.IpType) (ip : Ipaddress)
    (s : Session σ) :
    SameState s.dnspod (modifyIfMatched E g t ip s).2.dnspod ∧
    ∃ reqs, Sends E s.world (modifyIfMatched E g t ip s).2.world reqs ∧
      Modifies g (s.dnspod.record t) ip.confirmed reqs := by
  by_cases hsucc : ip.matchWanipWithLocalip.1 = returnSucc
  · have hconf : ip.confirmed = some ip.ipLocal := if_pos hsucc
    have hrun : (modifyIfMatched E g t ip s).2 = (dnspodRecordModify E g t ip.ipLocal s).2 := by
      unfold modifyIfMatched
      simp only [hsucc, if_true, match_of_succ hsucc]
    rw [hrun, hconf]
    rcases dnspodRecordModify_cases E g t ip.ipLocal s with
      ⟨hnil, heq⟩ | ⟨record0, rest, hcons, heq⟩
    · rw [heq]
      refine ⟨SameState.refl _, [], Sends.refl E _, ?_⟩
      unfold Modifies
      rw [hnil]
    · rw [heq]
      refine ⟨sameState_signedPost E _ _ s, _, sends_signedPost E _ _ s, ?_⟩
      unfold Modifies
      rw [hcons]
      exact ⟨_, rfl, signedRequest_is E (by decide) _ s⟩
  · have hconf : ip.confirmed = none := if_neg hsucc
    have hrun : (modifyIfMatched E g t ip s).2 = s := by
      unfold modifyIfMatched
      simp only [hsucc, if_false]
    rw [hrun, hconf]
    exact ⟨SameState.refl _, [], Sends.refl E _, rfl⟩

/-- The requests of `main` after the listing. -/
theorem sends_mainUpdate (E : Env σ) (p : Process σ) :
    ∃ dels mods4 mods6,
      Sends E p.session.world (mainUpdate E p).session.world (dels ++ mods4 ++ mods6) ∧
      List.Forall₂ (fun req r => req.Is (bytes "DeleteRecord")
        (recordDeletePayload p.fileConfig.domainName r.id.toUInt32))
        dels (surplus p.session.dnspod) ∧
      Modifies p.fileConfig p.session.dnspod.recordIpv4 p.ipV4.confirmed mods4 ∧
      Modifies p.fileConfig p.session.dnspod.recordIpv6 p.ipV6.confirmed mods6 := by
  obtain ⟨dels, hdels, hforall⟩ := sends_deleteLoop E p.fileConfig (surplus p.session.dnspod)
    p.session
  rw [← recordDeleteRemainOne_eq] at hdels
  -- the deletions leave the vectors as they are, and so does the first modification
  have hsame := sameState_recordDeleteRemainOne E p.fileConfig p.session
  obtain ⟨hsame4, mods4, hsends4, hmods4⟩ := sends_modifyIfMatched E p.fileConfig .classIpv4
    p.ipV4 (recordDeleteRemainOne E p.fileConfig p.session)
  obtain ⟨-, mods6, hsends6, hmods6⟩ := sends_modifyIfMatched E p.fileConfig .classIpv6 p.ipV6
    (modifyIfMatched E p.fileConfig .classIpv4 p.ipV4
      (recordDeleteRemainOne E p.fileConfig p.session)).2
  refine ⟨dels, mods4, mods6, (hdels.trans hsends4).trans hsends6, hforall, ?_, ?_⟩
  · rw [hsame.record] at hmods4
    exact hmods4
  · rw [(hsame.trans hsame4).record] at hmods6
    exact hmods6

/-! ## The whole run -/

section Run

variable (E : Env σ) (config : Bytes) (ifs : List Ifaddrs) (w : World σ)

theorem action_ipCheckRequest (url : Bytes) : (ipCheckRequest url).action = none := rfl

/-- The two IP checks. -/
def ipChecks (g : Config) : List Request :=
  [ipCheckRequest g.checkIpUrlIpv4, ipCheckRequest g.checkIpUrlIpv6]

theorem sends_mainStart :
    Sends E w (mainStart E config ifs w).session.world (ipChecks (mainConfig config)) :=
  ⟨List.append_assoc _ _ _, rfl⟩

/-- The domain listing sends its request and leaves the vectors empty. -/
theorem sends_afterDomainList :
    ∃ req : Request, req.Is (bytes "DescribeDomainList") (bytes "\x7b\x7d") ∧
      Sends E w (afterDomainList E config ifs w).world (ipChecks (mainConfig config) ++ [req]) :=
  ⟨_, signedRequest_is E (by decide) _ _,
    sends_decodeInto ((sends_mainStart E config ifs w).trans (sends_signedPost E _ _ _))⟩

theorem record_afterDomainList (t : Dnspod.IpType) :
    (afterDomainList E config ifs w).dnspod.record t = [] := by
  unfold afterDomainList dnspodDomainList decodeInto
  split
  · cases t <;> rfl
  · next b d hdecode =>
    show d.record t = []
    rw [(decodeDomainList_frame hdecode).rest]
    cases t <;> rfl

theorem sends_afterListing :
    ∃ dom list : Request, dom.Is (bytes "DescribeDomainList") (bytes "\x7b\x7d") ∧
      list.Is (bytes "DescribeRecordFilterList") (recordListFilterPayload (mainConfig config)) ∧
      Sends E w (afterListing E config ifs w).2.world
        (ipChecks (mainConfig config) ++ [dom] ++ [list]) := by
  obtain ⟨dom, hdom, hsends⟩ := sends_afterDomainList E config ifs w
  exact ⟨dom, _, hdom, signedRequest_is E (by decide) _ _,
    sends_decodeInto (hsends.trans (sends_signedPost E _ _ _))⟩

/-- What the listing's return value and object come from. -/
theorem afterListing_eq_ok {b : Bool} (h : (afterListing E config ifs w).1 = .ok b) :
    tencentcloudDecodeRecordListFilter E.machine (mainConfig config)
        (listingReply E config ifs w)
        (postRecordListFilter E (mainConfig config) (afterDomainList E config ifs w)).2.dnspod =
      .ok (b, (afterListing E config ifs w).2.dnspod) := by
  unfold afterListing dnspodRecordListFilter decodeInto at h ⊢
  unfold listingReply
  split at h
  · cases h
  · next b' d hdecode =>
    cases h
    rw [hdecode]

/-- **The requests of a run that ends.** -/
theorem sends_main (h : (main E config ifs w).1 = .ok ()) :
    ∃ dom list dels mods4 mods6,
      dom.Is (bytes "DescribeDomainList") (bytes "\x7b\x7d") ∧
      list.Is (bytes "DescribeRecordFilterList") (recordListFilterPayload (mainConfig config)) ∧
      List.Forall₂ (fun req r => req.Is (bytes "DeleteRecord")
        (recordDeletePayload (mainConfig config).domainName r.id.toUInt32))
        dels (surplus (afterListing E config ifs w).2.dnspod) ∧
      Modifies (mainConfig config) (afterListing E config ifs w).2.dnspod.recordIpv4
        (confirmed E config ifs w .classIpv4) mods4 ∧
      Modifies (mainConfig config) (afterListing E config ifs w).2.dnspod.recordIpv6
        (confirmed E config ifs w .classIpv6) mods6 ∧
      Sends E (afterListing E config ifs w).2.world (main E config ifs w).2.session.world
        (dels ++ mods4 ++ mods6) ∧
      Sends E w (main E config ifs w).2.session.world
        (ipChecks (mainConfig config) ++ [dom] ++ [list] ++ (dels ++ mods4 ++ mods6)) := by
  rcases main_cases E config ifs w with ⟨f, hf⟩ | ⟨f, hf⟩ | ⟨b, -, hmain⟩
  · rw [hf] at h
    cases h
  · rw [hf] at h
    cases h
  · obtain ⟨dom, list, hdom, hlist, hsends⟩ := sends_afterListing E config ifs w
    obtain ⟨dels, mods4, mods6, hupdate, hdels, hmods4, hmods6⟩ := sends_mainUpdate E
      { mainStart E config ifs w with session := (afterListing E config ifs w).2 }
    rw [hmain]
    exact ⟨dom, list, dels, mods4, mods6, hdom, hlist, hdels, hmods4, hmods6, hupdate,
      hsends.trans hupdate⟩

/-! ## The addresses that are confirmed -/

/-- The body of the reply to the IP check of a family. -/
def checkReply (t : Dnspod.IpType) : Bytes :=
  let r4 := E.perform (ipCheckRequest (mainConfig config).checkIpUrlIpv4) w.net
  match t with
  | .classIpv4 => r4.1.body
  | .classIpv6 => (E.perform (ipCheckRequest (mainConfig config).checkIpUrlIpv6) r4.2).1.body

/-- A reply without its line end. -/
def stripEol (s : Bytes) : Bytes := s.rdropWhile fun c => c == LF || c == CR

theorem mainIp_eq (t : Dnspod.IpType) :
    mainIp E config ifs w t =
      { (Ipaddress.new t.addrType (mainConfig config).domainFull).checkLocalIp E.machine ifs with
        ipWan := stripEol (checkReply E config w t) } := by
  cases t <;> rfl

/-- An address is confirmed when it is the first public one of its family on the
host and the one that the service reports. -/
theorem confirmed_eq_some_iff (t : Dnspod.IpType) (ip : Bytes) :
    confirmed E config ifs w t = some ip ↔
      publicText E.machine t.addrType ifs = some ip ∧ stripEol (checkReply E config w t) = ip := by
  have hfresh : (Ipaddress.new t.addrType (mainConfig config).domainFull).validIpwan = false := rfl
  have hclass : (Ipaddress.new t.addrType (mainConfig config).domainFull).classTypeIp =
    t.addrType := rfl
  rw [confirmed, Ipaddress.confirmed_eq_some_iff, mainIp_eq,
    checkLocalIp_of_invalid _ _ hfresh, hclass]
  cases publicText E.machine t.addrType ifs with
  | none => exact iff_of_false (fun h => Bool.false_ne_true h.1) (fun h => nomatch h.1)
  | some text =>
    constructor
    · rintro ⟨-, hwan, htext⟩
      have hwan' : stripEol (checkReply E config w t) = text := hwan
      have htext' : text = ip := htext
      exact ⟨congrArg some htext', hwan'.trans htext'⟩
    · rintro ⟨htext, hwan⟩
      obtain rfl := Option.some.inj htext
      exact ⟨rfl, hwan, rfl⟩

/-- A confirmed address is the text of an address of its family on the host. -/
theorem confirmed_mem {t : Dnspod.IpType} {ip : Bytes}
    (h : confirmed E config ifs w t = some ip) :
    ∃ a ∈ addrs t.addrType ifs, ip = t.addrType.inetNtop a := by
  have hpublic := ((confirmed_eq_some_iff E config ifs w t ip).mp h).1
  obtain ⟨a, hfind, htext⟩ := Option.map_eq_some_iff.mp hpublic
  exact ⟨a, List.mem_of_find?_eq_some hfind, htext.symm⟩

end Run

end DdnsCloudTencent
