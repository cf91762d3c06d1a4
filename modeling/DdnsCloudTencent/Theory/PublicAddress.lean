import DdnsCloudTencent.Lib.InetPton
import DdnsCloudTencent.Theory.Addresses

/-!
# Which address is taken for the public one (develop/check_ip_wan.cpp)

- `checkLocalIp_selects`: on a fresh object `check_local_ip` takes the first
  address of its family that `ip_valid` accepts;
- `ipValid_inetNtop4_iff`: for IPv4 that is every address but those strictly
  inside the four ranges;
- `ipValid_inetNtop6`: for IPv6 it is 2000::/3, read off the text;
- `recognises_iff`: the comparison with the reported address is one of texts.
-/

namespace DdnsCloudTencent

open Cxx Inet

/-! ## The first public address -/

/-- What one `check_local_ip` on the object `ip` leaves in `ip'`. -/
structure Selects (M : Machine) (t : Ipaddress.IpType) (ifAddrStruct : List Ifaddrs)
    (ip ip' : Ipaddress) : Prop where
  valid : ip'.validIpwan = true ↔ ∃ ifa ∈ ifAddrStruct, ∃ a ∈ ifa.own t, t.isWan M a = true
  first : ∀ before ifa after a, ifAddrStruct = before ++ ifa :: after → a ∈ ifa.own t →
    t.isWan M a = true → (∀ b ∈ addrs t before, t.isWan M b = false) →
    ip'.ipLocal = t.inetNtop a
  none : ip'.validIpwan = false → ip'.ipLocal = ip.ipLocal
  rest : ip' = { ip with ipLocal := ip'.ipLocal, validIpwan := ip'.validIpwan }

theorem addrs_append (t : Ipaddress.IpType) (ifs ifs' : List Ifaddrs) :
    addrs t (ifs ++ ifs') = addrs t ifs ++ addrs t ifs' := List.filterMap_append ..

theorem publicText_eq_some_of_first {M : Machine} {t : Ipaddress.IpType}
    {before after : List Ifaddrs} {ifa : Ifaddrs} {a : t.Addr} (ha : a ∈ ifa.own t)
    (hwan : t.isWan M a = true) (hbefore : ∀ b ∈ addrs t before, t.isWan M b = false) :
    publicText M t (before ++ ifa :: after) = some (t.inetNtop a) := by
  have hnone : (addrs t before).find? (t.isWan M) = none :=
    List.find?_eq_none.mpr fun b hb => by rw [hbefore b hb]; exact Bool.false_ne_true
  rw [publicText, addrs_append, addrs_cons_some ha, List.find?_append, hnone, Option.none_or,
    List.find?_cons_of_pos hwan]
  rfl

theorem publicText_eq_none_iff {M : Machine} {t : Ipaddress.IpType} {ifs : List Ifaddrs} :
    publicText M t ifs = none ↔ ¬ ∃ ifa ∈ ifs, ∃ a ∈ ifa.own t, t.isWan M a = true := by
  rw [publicText, Option.map_eq_none_iff, List.find?_eq_none]
  constructor
  · rintro h ⟨ifa, hifa, a, ha, hwan⟩
    exact h a (List.mem_filterMap.mpr ⟨ifa, hifa, ha⟩) hwan
  · intro h a ha hwan
    obtain ⟨ifa, hifa, hown⟩ := List.mem_filterMap.mp ha
    exact h ⟨ifa, hifa, a, hown, hwan⟩

/-- **The first public address of the family is selected**, and nothing else of
the object changes. -/
theorem checkLocalIp_selects (M : Machine) (t : Ipaddress.IpType) (domain : Bytes)
    (ifAddrStruct : List Ifaddrs) :
    Selects M t ifAddrStruct (Ipaddress.new t domain)
      ((Ipaddress.new t domain).checkLocalIp M ifAddrStruct) := by
  have hloop := checkLocalIp_of_invalid M ifAddrStruct
    (show (Ipaddress.new t domain).validIpwan = false from rfl)
  have hclass : (Ipaddress.new t domain).classTypeIp = t := rfl
  rw [hclass] at hloop
  -- whether some entry has a public text
  cases htext : publicText M t ifAddrStruct with
  | none =>
    rw [htext] at hloop
    rw [hloop]
    have hno := publicText_eq_none_iff.mp htext
    refine ⟨iff_of_false Bool.false_ne_true hno, fun before ifa after a hsplit ha hwan _ => ?_,
      fun _ => rfl, rfl⟩
    exact absurd ⟨ifa, by rw [hsplit]; simp, a, ha, hwan⟩ hno
  | some text =>
    rw [htext] at hloop
    rw [hloop]
    refine ⟨iff_of_true rfl ?_, fun before ifa after a hsplit ha hwan hbefore => ?_,
      nofun, rfl⟩
    · by_contra hno
      rw [publicText_eq_none_iff.mpr hno] at htext
      cases htext
    · rw [hsplit, publicText_eq_some_of_first ha hwan hbefore] at htext
      exact (Option.some.inj htext).symm

/-! ## The first separator of a text -/

/-- The loop of `ip_valid` goes on up to a separator. -/
theorem ipValidLoop_append {M : Machine} {ip : CStr} {s : Bytes} (h : ∀ c ∈ s, c ≠ dot ∧ c ≠ colon)
    (rest : Bytes) : ipValidLoop M ip (s ++ rest) = ipValidLoop M ip rest := by
  induction s with
  | nil => rfl
  | cons c s ih =>
    obtain ⟨hc, hs⟩ := List.forall_mem_cons.mp h
    rw [List.cons_append, ipValidLoop, if_neg hc.1, if_neg hc.2]
    exact ih hs

/-! ## IPv4 -/

/-- The four private ranges, with their ends (check_ip_wan.cpp:132). -/
def privateRanges : List (Nat × Nat) :=
  [(0x0A000000, 0x0AFFFFFF), (0xAC100000, 0xAC1FFFFF), (0xC0A80000, 0xC0A8FFFF),
    (0x7F000000, 0x7FFFFFFF)]

/-- An address of one of the private ranges. -/
def IsPrivate (a : BitVec 32) : Prop := ∃ r ∈ privateRanges, r.1 ≤ a.toNat ∧ a.toNat ≤ r.2

/-- The text of an IPv4 address goes to `isIPv4_wan`, which reads the address back. -/
theorem ipValid_inetNtop4 (M : Machine) (a : BitVec 32) :
    ipValid M (cStr (inetNtop4 a)) = false ↔
      ∃ r ∈ privateRanges, r.1 < a.toNat ∧ a.toNat < r.2 := by
  have htext : (cStr (inetNtop4 a)).toBytes = inetNtop4 a :=
    Ipaddress.IpType.cStr_inetNtop .classIpv4 a
  have hfirst : inetNtop4 a = toDecimal (a.toNat / 2 ^ 24) ++ (dot ::
      dottedQuad [a.toNat / 2 ^ 16 % 256, a.toNat / 2 ^ 8 % 256, a.toNat % 256]) := rfl
  have hoctet : ∀ c ∈ toDecimal (a.toNat / 2 ^ 24), c ≠ dot ∧ c ≠ colon :=
    numeral_ne_separator (by decide) (by decide)
  -- the first separator is the dot behind the first octet
  have hloop : ipValid M (cStr (inetNtop4 a)) = isIPv4Wan M (cStr (inetNtop4 a)) := by
    unfold ipValid
    generalize cStr (inetNtop4 a) = ip at htext ⊢
    rw [htext, hfirst, ipValidLoop_append hoctet, ipValidLoop, if_pos rfl]
  have hread : isIPv4Wan M (cStr (inetNtop4 a)) = false ↔
      (a.toNat > 0x0A000000 ∧ a.toNat < 0x0AFFFFFF) ∨
      (a.toNat > 0xAC100000 ∧ a.toNat < 0xAC1FFFFF) ∨
      (a.toNat > 0xC0A80000 ∧ a.toNat < 0xC0A8FFFF) ∨
      (a.toNat > 0x7F000000 ∧ a.toNat < 0x7FFFFFFF) := by
    unfold isIPv4Wan
    rw [htext, inetPton4_inetNtop4, Option.getD_some]
    dsimp only
    split_ifs with h
    · exact iff_of_true rfl h
    · exact iff_of_false (by decide) h
  rw [hloop, hread]
  simp only [privateRanges, List.exists_mem_cons_iff, List.not_mem_nil, false_and, exists_false,
    or_false]

/-- **When an IPv4 address is classified by the ranges**: it is no end of one. -/
theorem ipValid_inetNtop4_iff (M : Machine) (a : BitVec 32) :
    (ipValid M (cStr (inetNtop4 a)) = false ↔ IsPrivate a) ↔
      ∀ r ∈ privateRanges, a.toNat ≠ r.1 ∧ a.toNat ≠ r.2 := by
  rw [ipValid_inetNtop4]
  simp only [IsPrivate, privateRanges, List.exists_mem_cons_iff, List.forall_mem_cons,
    List.not_mem_nil, false_and, exists_false, or_false, false_imp_iff, implies_true, and_true]
  omega

/-- `10.0.0.0` is private and passes for a public address. -/
theorem rangeEnd_misclassified :
    let M := (replyEnv []).machine
    let a : BitVec 32 := 0x0A000000
    inetNtop4 a = bytes "10.0.0.0" ∧ IsPrivate a ∧ ipValid M (cStr (inetNtop4 a)) = true ∧
      ¬ (ipValid M (cStr (inetNtop4 a)) = false ↔ IsPrivate a) := by
  intro M a
  have hprivate : IsPrivate a := ⟨(0x0A000000, 0x0AFFFFFF), by decide, by decide, by decide⟩
  have hvalid : ipValid M (cStr (inetNtop4 a)) = true := by decide +kernel
  refine ⟨by decide +kernel, hprivate, hvalid, fun h => ?_⟩
  rw [h.mpr hprivate] at hvalid
  cases hvalid

/-! ## IPv6 -/

/-- The loop of `isIPv6_wan` over the memory from `ipv6` on, at `i` with `n`
rounds left: the first colon, and the positions read on the way. -/
def colonScan (mem : Nat → UInt8) (i : Nat) : Nat → Option Nat × List Nat
  | 0 => (none, [])
  | n + 1 =>
    if mem i = colon then (some i, [i])
    else ((colonScan mem (i + 1) n).1, i :: (colonScan mem (i + 1) n).2)

/-- A text in memory, with anything behind it. -/
def behind (t : Bytes) (rest : Nat → UInt8) : Nat → UInt8 := fun i => t.getD i (rest i)

/-- The scan stops at the first colon. -/
theorem colonScan_eq {mem : Nat → UInt8} {k : Nat} (hk : mem k = colon) {n i : Nat} (hik : i ≤ k)
    (hn : k < i + n) (hno : ∀ j, i ≤ j → j < k → mem j ≠ colon) :
    (colonScan mem i n).1 = some k ∧ ∀ j ∈ (colonScan mem i n).2, j ≤ k := by
  induction n generalizing i with
  | zero => omega
  | succ n ih =>
    rw [colonScan]
    by_cases hi : i = k
    · subst hi
      simp [hk]
    · obtain ⟨hfirst, hread⟩ := ih (i := i + 1) (by omega) (by omega)
        fun j hj hj' => hno j (by omega) hj'
      rw [if_neg (hno i (by omega) (by omega))]
      refine ⟨hfirst, List.forall_mem_cons.mpr ⟨hik, hread⟩⟩

/-- What stands before the first colon: short, and a number of four digits is
the first group itself. -/
theorem firstField_spec {g : Nat} (hg : g < 2 ^ 16) {first : Bytes}
    (hfirst : first = numeral 16 g ∨ first = [] ∧ g = 0) :
    first.length ≤ 4 ∧ (∀ c ∈ first, c ≠ dot ∧ c ≠ colon) ∧
      (first.length < 4 → g < 16 ^ 3) ∧ strtol16 first = g := by
  rcases hfirst with rfl | ⟨rfl, rfl⟩
  · refine ⟨length_numeral_le hg, numeral_ne_separator (by decide) (by decide), fun hl => ?_,
      strtol16_numeral g⟩
    exact lt_of_length_numeral_le (by omega)
  · exact ⟨by decide, fun c hc => absurd hc List.not_mem_nil, fun _ => by decide, rfl⟩

/-- The first colon of a text, within the 32 characters looked at. -/
theorem findIdx?_colon {t first rest : Bytes} (heq : t = first ++ colon :: rest)
    (hlen : first.length ≤ 4) (hno : ∀ c ∈ first, c ≠ dot ∧ c ≠ colon) :
    (t.take 32).findIdx? (· == colon) = some first.length := by
  have hnone : first.findIdx? (· == colon) = none :=
    List.findIdx?_eq_none_iff.mpr fun c hc => by simpa using (hno c hc).2
  have htake : t.take 32 = first ++ colon :: rest.take (31 - first.length) := by
    rw [heq, List.take_append, List.take_of_length_le (by omega),
      show 32 - first.length = 31 - first.length + 1 by omega, List.take_succ_cons]
  rw [htake, List.findIdx?_append, hnone, List.findIdx?_cons]
  simp

/-- The prefix test reads the first group. -/
theorem isIPv6Wan_inetNtop6 (a : BitVec 128) :
    isIPv6Wan (cStr (inetNtop6 a)) = true ↔ a.toNat / 2 ^ 125 = 1 := by
  have htext : (cStr (inetNtop6 a)).toBytes = inetNtop6 a :=
    Ipaddress.IpType.cStr_inetNtop .classIpv6 a
  have hlt := a.isLt
  obtain ⟨first, rest, heq, hfirst⟩ := inetNtop6_eq a
  obtain ⟨hlen, hno, hshort, hvalue⟩ := firstField_spec (by omega) hfirst
  unfold isIPv6Wan
  rw [htext, findIdx?_colon heq hlen hno]
  by_cases h4 : first.length = 4
  · have htake : (inetNtop6 a).take 4 = first := by rw [heq, ← h4, List.take_left]
    simp only [h4, htake, hvalue, beq_iff_eq]
    omega
  · -- a group of fewer digits starts with zero bits
    have hsmall := hshort (by omega)
    refine iff_of_false (fun h => ?_) (by omega)
    split at h
    · next h' => exact h4 (Option.some.inj h')
    · cases h

/-- The scan finds the colon that the prefix test looks at, and stops there. -/
theorem colonScan_inetNtop6 (a : BitVec 128) (rest : Nat → UInt8) :
    (colonScan (behind (inetNtop6 a) rest) 0 32).1 =
        ((inetNtop6 a).take 32).findIdx? (· == colon) ∧
      ∀ i ∈ (colonScan (behind (inetNtop6 a) rest) 0 32).2, i < (inetNtop6 a).length := by
  have hlt := a.isLt
  obtain ⟨first, tail, heq, hfirst⟩ := inetNtop6_eq a
  obtain ⟨hlen, hno, -, -⟩ := firstField_spec (by omega) hfirst
  have hlength : first.length < (inetNtop6 a).length := by
    rw [heq, List.length_append, List.length_cons]
    omega
  have hcolon : behind (inetNtop6 a) rest first.length = colon := by
    simp [behind, heq]
  have hbefore : ∀ j, 0 ≤ j → j < first.length → behind (inetNtop6 a) rest j ≠ colon := by
    intro j _ hj
    have hget : behind (inetNtop6 a) rest j = first[j] := by
      simp [behind, heq, List.getElem?_append_left hj, List.getElem?_eq_getElem hj]
    rw [hget]
    exact (hno _ (List.getElem_mem hj)).2
  obtain ⟨hscan, hread⟩ := colonScan_eq hcolon (n := 32) (Nat.zero_le _) (by omega) hbefore
  rw [hscan, findIdx?_colon heq hlen hno]
  exact ⟨rfl, fun i hi => lt_of_le_of_lt (hread i hi) hlength⟩

/-- **IPv6: membership in 2000::/3**, with a scan that stays inside the text
whatever lies behind it. -/
theorem ipValid_inetNtop6 (M : Machine) (a : BitVec 128) :
    (ipValid M (cStr (inetNtop6 a)) = true ↔ a.extractLsb' 125 3 = 0b001#3) ∧
      ∀ rest : Nat → UInt8,
        (colonScan (behind (inetNtop6 a) rest) 0 32).1 =
            ((inetNtop6 a).take 32).findIdx? (· == colon) ∧
          ∀ i ∈ (colonScan (behind (inetNtop6 a) rest) 0 32).2, i < (inetNtop6 a).length := by
  refine ⟨?_, colonScan_inetNtop6 a⟩
  have htext : (cStr (inetNtop6 a)).toBytes = inetNtop6 a :=
    Ipaddress.IpType.cStr_inetNtop .classIpv6 a
  have hlt := a.isLt
  obtain ⟨first, rest, heq, hfirst⟩ := inetNtop6_eq a
  obtain ⟨-, hno, -, -⟩ := firstField_spec (by omega) hfirst
  -- the first separator is the colon behind the first field
  have hloop : ipValid M (cStr (inetNtop6 a)) = isIPv6Wan (cStr (inetNtop6 a)) := by
    unfold ipValid
    generalize cStr (inetNtop6 a) = ip at htext ⊢
    rw [htext, heq, ipValidLoop_append hno, ipValidLoop, if_neg (by decide), if_pos rfl]
  have htop : a.extractLsb' 125 3 = 0b001#3 ↔ a.toNat / 2 ^ 125 = 1 := by
    rw [← BitVec.toNat_inj, BitVec.extractLsb'_toNat, Nat.shiftRight_eq_div_pow]
    show a.toNat / 2 ^ 125 % 2 ^ 3 = 1 ↔ _
    omega
  rw [hloop, isIPv6Wan_inetNtop6, htop]

/-! ## The comparison with the reported address -/

/-- `inet_pton`. -/
def Ipaddress.IpType.inetPton : (t : Ipaddress.IpType) → Bytes → Option t.Addr
  | .classIpv4 => inetPton4
  | .classIpv6 => inetPton6

theorem Ipaddress.IpType.inetPton_inetNtop (t : Ipaddress.IpType) (a : t.Addr) :
    t.inetPton (t.inetNtop a) = some a := by
  cases t with
  | classIpv4 => exact inetPton4_inetNtop4 a
  | classIpv6 => exact inetPton6_inetNtop6 a

/-- A text that `inet_pton` accepts has no line end in it. -/
theorem Ipaddress.IpType.ne_lineEnd_of_inetPton {t : Ipaddress.IpType} {text : Bytes} {b : t.Addr}
    (hread : t.inetPton text = some b) : ∀ c ∈ text, c ≠ CR ∧ c ≠ LF := by
  intro c hc
  cases t with
  | classIpv4 =>
    rw [inetPton4_eq_some_iff.mp hread] at hc
    have htext := mem_textChars_of_inetNtop4 hc
    constructor <;> rintro rfl <;> revert htext <;> decide
  | classIpv6 =>
    have hchar := mem_of_inetPton6 hread hc
    constructor <;> rintro rfl <;> revert hchar <;> decide

/-- **When the comparison of texts is one of addresses.** The reply spells the
address `b` of the family in any way `inet_pton` accepts. -/
theorem recognises_iff {t : Ipaddress.IpType} {ip : Ipaddress} {a b : t.Addr} {text eol : Bytes}
    (hvalid : ip.validIpwan = true) (hlocal : ip.ipLocal = t.inetNtop a)
    (hread : t.inetPton text = some b) (heol : ∀ c ∈ eol, c = CR ∨ c = LF) :
    ((decodeIpwan (text ++ eol) ip).matchWanipWithLocalip.1 = returnSucc ↔ a = b) ↔
      (t = .classIpv6 → a = b → text = t.inetNtop b) := by
  have hsucc : (decodeIpwan (text ++ eol) ip).matchWanipWithLocalip.1 = returnSucc ↔
      text = t.inetNtop a := by
    rw [decodeIpwan_text (Ipaddress.IpType.ne_lineEnd_of_inetPton hread) heol, match_eq_succ_iff]
    simp only [hvalid, hlocal, true_and]
  have hsame : text = t.inetNtop a → a = b := by
    rintro rfl
    rw [t.inetPton_inetNtop] at hread
    exact Option.some.inj hread
  rw [hsucc]
  constructor
  · rintro h - rfl
    exact h.mpr rfl
  · intro h
    refine ⟨hsame, ?_⟩
    rintro rfl
    -- an IPv4 address has one text; for IPv6 this is the condition
    cases t with
    | classIpv4 => exact inetPton4_eq_some_iff.mp hread
    | classIpv6 => exact h rfl rfl

/-- The object after `check_local_ip` on a host with two public addresses. -/
def checkedIpv6 : Ipaddress :=
  (Ipaddress.new .classIpv6 []).checkLocalIp (replyEnv []).machine twoPublicIfaddrs

theorem checkedIpv6_spec : checkedIpv6.validIpwan = true ∧
    checkedIpv6.ipLocal = Ipaddress.IpType.inetNtop .classIpv6 firstPublic := by
  decide +kernel

/-- The service writes the address as `inet_ntop` does. -/
theorem recognises_canonical :
    (decodeIpwan (bytes "2001:db8::1" ++ bytes "\r\n") checkedIpv6).matchWanipWithLocalip.1 =
      returnSucc ↔ firstPublic = firstPublic := by
  have hread : Ipaddress.IpType.inetPton .classIpv6 (bytes "2001:db8::1") = some firstPublic := by
    decide +kernel
  have htext : bytes "2001:db8::1" = Ipaddress.IpType.inetNtop .classIpv6 firstPublic := by
    decide +kernel
  exact (recognises_iff checkedIpv6_spec.1 checkedIpv6_spec.2 hread (by decide)).mpr
    fun _ _ => htext

/-- Upper case and a leading zero: the same address, and not recognised. -/
theorem otherSpelling_not_recognised :
    let text := bytes "2001:0DB8::1"
    let ip := decodeIpwan (text ++ bytes "\n") checkedIpv6
    Ipaddress.IpType.inetPton .classIpv6 text = some firstPublic ∧
      checkedIpv6.validIpwan = true ∧
      checkedIpv6.ipLocal = Ipaddress.IpType.inetNtop .classIpv6 firstPublic ∧
      ip.matchWanipWithLocalip.1 = returnFail ∧
      ¬ (ip.matchWanipWithLocalip.1 = returnSucc ↔ firstPublic = firstPublic) := by
  intro text ip
  have hfail : ip.matchWanipWithLocalip.1 = returnFail := by decide +kernel
  refine ⟨by decide +kernel, checkedIpv6_spec.1, checkedIpv6_spec.2, hfail, fun h => ?_⟩
  rw [hfail] at h
  exact absurd (h.mpr rfl) (by decide)

end DdnsCloudTencent
