import DdnsCloudTencent.Theory.Service

/-!
# What a run of main does to the zone (main.cpp:85)

A run against a DNS service deletes and modifies records of the listing only,
and each of them by one request. So the fate of a record is decided by its place
in the listing and by whether that request was granted.

- `Families`: the listed records of each family. An id stands for one record of
  one family, and once in it;
- `listing_cases`: what the vectors hold after the listing;
- `accepted_cases`: the changes that a run can make;
- `main_updates`: the zone after a run, record by record.
-/

namespace DdnsCloudTencent

open Cxx Keyed

variable {σ : Type}

/-! ## The listed records -/

/-- Some records of a zone by their family, in an order. -/
structure Families (g : Config) (z : Zone) (F : Dnspod.IpType → List (Nat × DnsRecord)) :
    Prop where
  sound : ∀ t, ∀ p ∈ F t, z p.1 = some p.2 ∧ OfFamily g t p.2
  nodup : ∀ t, ((F t).map Prod.fst).Nodup
  small : ∀ t, ∀ p ∈ F t, p.1 < 2 ^ 32

theorem families_nil (g : Config) (z : Zone) : Families g z fun _ => [] where
  sound _ _ hp := absurd hp List.not_mem_nil
  nodup _ := List.nodup_nil
  small _ _ hp := absurd hp List.not_mem_nil

theorem Lists.families {M : Machine} {g : Config} {z : Zone} {body : Bytes}
    {L : List (Nat × DnsRecord)} (h : Lists M g z body L)
    (hz : ∀ id e, z id = some e → id < 2 ^ 32) : Families g z fun t => family g t L where
  sound _ p hp := ⟨((h.mem_iff p.1 p.2).mp (mem_family.mp hp).1).1, (mem_family.mp hp).2⟩
  nodup _ := h.nodup.sublist (List.filter_sublist.map Prod.fst)
  small _ p hp := h.id_lt hz p (mem_family.mp hp).1

section Families

variable {g : Config} {z : Zone} {F : Dnspod.IpType → List (Nat × DnsRecord)}

/-- An id stands for one record, which is of one family. -/
theorem Families.eq_of_id (h : Families g z F) {t t' : Dnspod.IpType} {p q : Nat × DnsRecord}
    (hp : p ∈ F t) (hq : q ∈ F t') (hid : p.1 = q.1) : t = t' ∧ p = q := by
  obtain ⟨hzp, hfp⟩ := h.sound t p hp
  obtain ⟨hzq, hfq⟩ := h.sound t' q hq
  have hrec : p.2 = q.2 := by
    rw [hid, hzq] at hzp
    exact (Option.some.inj hzp).symm
  rw [hrec] at hfp
  exact ⟨hfp.unique hfq, Prod.ext hid hrec⟩

/-- The first record of a family is not among the others. -/
theorem Families.head_ne (h : Families g z F) {t : Dnspod.IpType} {p q : Nat × DnsRecord}
    {rest : List (Nat × DnsRecord)} (hF : F t = p :: rest) (hq : q ∈ rest) : p.1 ≠ q.1 := by
  have hnodup := h.nodup t
  rw [hF, List.map_cons, List.nodup_cons] at hnodup
  intro heq
  exact hnodup.1 (heq ▸ List.mem_map_of_mem hq)

theorem Families.not_mem_tail (h : Families g z F) {t : Dnspod.IpType} {p : Nat × DnsRecord}
    (hp : (F t).head? = some p) : p ∉ (F t).tail := by
  obtain ⟨rest, hrest⟩ := List.head?_eq_some_iff.mp hp
  rw [hrest]
  exact fun htail => h.head_ne hrest htail rfl

end Families

/-- The payload that deletes a listed record. -/
def deletePayload (g : Config) (p : Nat × DnsRecord) : Bytes :=
  recordDeletePayload g.domainName (UInt32.ofNat p.1)

/-- The payload that sets the address of a listed record. -/
def modifyPayload (g : Config) (t : Dnspod.IpType) (p : Nat × DnsRecord) (text : Bytes) : Bytes :=
  recordModifyPayload g (cached t p) text

theorem deletePayload_cached (g : Config) (t : Dnspod.IpType) (p : Nat × DnsRecord) :
    recordDeletePayload g.domainName (cached t p).id.toUInt32 = deletePayload g p := by
  have hid : (cached t p).id.toUInt32 = UInt32.ofNat p.1 := by
    refine UInt32.toNat_inj.mp ?_
    show (UInt64.ofNat p.1).toUInt32.toNat = (UInt32.ofNat p.1).toNat
    rw [UInt64.toNat_toUInt32, UInt64.toNat_ofNat', UInt32.toNat_ofNat']
    exact Nat.mod_mod_of_dvd p.1 (by decide)
  rw [hid, deletePayload]

/-- The change that a modification of a listed record asks for. -/
def setAddress (t : Dnspod.IpType) (p : Nat × DnsRecord) (text : Bytes) : Change Nat DnsRecord :=
  .edit p.1 fun e => e.modified (key t.typeText) (cStr text)

theorem idempotent_setAddress (t : Dnspod.IpType) (p : Nat × DnsRecord) (text : Bytes) :
    (setAddress t p text).Idempotent := Change.idempotent_edit fun _ => rfl

section Changes

variable {R : BodyReader} {g : Config} {r : Request} {p : Nat × DnsRecord}

theorem change_deletePayload (hdel : ReadsDeletes R g) (hsmall : p.1 < 2 ^ 32)
    (h : r.Is (bytes "DeleteRecord") (deletePayload g p)) : r.change R = some (.erase p.1) := by
  have hid : (UInt32.ofNat p.1).toNat = p.1 := by
    rw [UInt32.toNat_ofNat']
    exact Nat.mod_eq_of_lt hsmall
  have hread := hdel (UInt32.ofNat p.1)
  rw [hid] at hread
  exact h.change_delete hread

theorem change_modifyPayload {t : Dnspod.IpType} {text : Bytes} (hmod : ReadsModify R g text)
    (hsmall : p.1 < 2 ^ 32) (h : r.Is (bytes "ModifyRecord") (modifyPayload g t p text)) :
    r.change R = some (setAddress t p text) := by
  have hread := hmod t (cached t p) rfl
  rw [cached_id hsmall] at hread
  exact h.change_modify hread

end Changes

/-! ## The requests of a run -/

section Run

variable (E : Env σ) (config : Bytes) (ifs : List Ifaddrs) (w : World σ)

/-- The request that lists the records. -/
def listingRequest : Request :=
  signedRequest E (bytes "DescribeRecordFilterList") (recordListFilterPayload (mainConfig config))
    (afterDomainList E config ifs w)

/-- The record listing succeeds. -/
def listingOk : Bool :=
  (E.perform (listingRequest E config ifs w) (afterDomainList E config ifs w).world.net).1.ok

/-- The requests of a run and whether they succeeded. -/
def mainLog : List (Request × Bool) := exchanges E (mainSent E config ifs w) w.net

/-- A run has sent this request and the service has granted it. -/
def Granted (action payload : Bytes) : Prop :=
  ∃ r, (r, true) ∈ mainLog E config ifs w ∧ r.Is action payload

variable {E config ifs w} {R : BodyReader} {zone : σ → Zone}

theorem zone_afterDomainList (hservice : DnsService E (mainConfig config) R zone) :
    zone (afterDomainList E config ifs w).world.net = zone w.net := by
  obtain ⟨req, hreq, hsends⟩ := sends_afterDomainList E config ifs w
  refine hsends.zone_of_not_mutates hservice fun r hr => ?_
  rcases List.mem_append.mp hr with hr | hr
  · exact ipChecks_not_mutates r hr
  · rw [List.mem_singleton.mp hr]
    exact hreq.not_mutates (by decide) (by decide)

variable (ifs w) in
/-- The vectors after the listing: the listed records by family, none where the
listing fails. -/
theorem listing_cases (hservice : DnsService E (mainConfig config) R zone) :
    ∃ b F, (afterListing E config ifs w).1 = .ok b ∧
      Families (mainConfig config) (zone w.net) F ∧
      (∀ t, (afterListing E config ifs w).2.dnspod.record t = (F t).map (cached t)) ∧
      ((listingOk E config ifs w = false ∧ F = fun _ => []) ∨
        listingOk E config ifs w = true ∧ ∃ L, Lists E.machine (mainConfig config) (zone w.net)
          (listingReply E config ifs w) L ∧ F = fun t => family (mainConfig config) t L) := by
  have hempty := record_afterDomainList E config ifs w
  have hspec := listFilter_spec hservice (afterDomainList E config ifs w)
  rw [zone_afterDomainList hservice] at hspec
  rcases hspec with ⟨-, ⟨hok, hret, hrec⟩ | ⟨hok, hret, L, hL, hrec⟩⟩
  · refine ⟨false, _, hret, families_nil _ _, fun t => ?_, .inl ⟨hok, rfl⟩⟩
    exact (hrec t).trans (hempty t)
  · refine ⟨true, _, hret, hL.families (hservice.ids w.net), fun t => ?_, .inr ⟨hok, L, hL, rfl⟩⟩
    rw [← List.nil_append ((family (mainConfig config) t L).map (cached t)), ← hempty t]
    exact hrec t

/-- A run against a DNS service ends. -/
theorem main_ends (hservice : DnsService E (mainConfig config) R zone) :
    (main E config ifs w).1 = .ok () := by
  obtain ⟨⟨b, hdomains⟩, -⟩ := domainList_spec hservice (mainStart E config ifs w).session
  obtain ⟨b', -, hlisting, -⟩ := listing_cases ifs w hservice
  have hconfig : (mainStart E config ifs w).fileConfig = mainConfig config := rfl
  unfold afterListing afterDomainList at hlisting
  unfold main
  simp only [hconfig]
  revert hdomains hlisting
  generalize dnspodDomainList E (mainConfig config) (mainStart E config ifs w).session = r
  obtain ⟨r, s⟩ := r
  rintro rfl
  simp only
  generalize dnspodRecordListFilter E (mainConfig config) s = r'
  obtain ⟨r', s'⟩ := r'
  rintro rfl
  rfl

section Listed

variable {F : Dnspod.IpType → List (Nat × DnsRecord)}
  (hrun : (main E config ifs w).1 = .ok ())
  (hF : ∀ t, (afterListing E config ifs w).2.dnspod.record t = (F t).map (cached t))

include hrun hF

/-- The requests of a run: some that change nothing, one deletion for each listed
record behind the first of its family, and the modifications. -/
theorem mainSent_eq :
    Sends E w (main E config ifs w).2.session.world (mainSent E config ifs w) ∧
    ∃ (quiet dels : List Request) (mods : Dnspod.IpType → List Request),
      mainSent E config ifs w = quiet ++ (dels ++ mods .classIpv4 ++ mods .classIpv6) ∧
      (∀ r ∈ quiet, ¬ r.Mutates) ∧
      (∀ r ∈ dels, ∃ t, ∃ p ∈ (F t).tail,
        r.Is (bytes "DeleteRecord") (deletePayload (mainConfig config) p)) ∧
      (∀ t, ∀ p ∈ (F t).tail, ∃ r ∈ dels,
        r.Is (bytes "DeleteRecord") (deletePayload (mainConfig config) p)) ∧
      ∀ t, Modifies (mainConfig config) ((F t).map (cached t)) (confirmed E config ifs w t)
        (mods t) := by
  obtain ⟨dom, list, dels, mods4, mods6, hdom, hlist, hdels, hmods4, hmods6, -, hsends⟩ :=
    sends_main E config ifs w hrun
  have hsent : mainSent E config ifs w =
      ipChecks (mainConfig config) ++ [dom] ++ [list] ++ (dels ++ mods4 ++ mods6) := by
    unfold mainSent
    rw [hsends.sent, List.drop_left]
  have hsurplus : ∀ rec0, rec0 ∈ surplus (afterListing E config ifs w).2.dnspod ↔
      ∃ t, ∃ p ∈ (F t).tail, cached t p = rec0 := by
    intro rec0
    rw [mem_surplus]
    refine exists_congr fun t => ?_
    rw [hF t, ← List.map_tail, List.mem_map]
  refine ⟨hsent ▸ hsends, _, dels, fun t => if t = .classIpv4 then mods4 else mods6, hsent,
    listing_not_mutates hdom hlist, fun r hr => ?_, fun t p hp => ?_, fun t => ?_⟩
  · obtain ⟨rec0, hrec0, his⟩ := exists_of_mem_forall₂ hdels hr
    obtain ⟨t, p, hp, rfl⟩ := (hsurplus rec0).mp hrec0
    rw [deletePayload_cached] at his
    exact ⟨t, p, hp, his⟩
  · obtain ⟨r, hr, his⟩ := exists_of_mem_forall₂ hdels.flip ((hsurplus _).mpr ⟨t, p, hp, rfl⟩)
    rw [deletePayload_cached] at his
    exact ⟨r, hr, his⟩
  · rw [← hF t]
    cases t with
    | classIpv4 => exact hmods4
    | classIpv6 => exact hmods6

/-- A deletion is sent for every listed record behind the first of its family. -/
theorem sent_delete {t : Dnspod.IpType} {p : Nat × DnsRecord} (hp : p ∈ (F t).tail) :
    ∃ r ∈ mainSent E config ifs w,
      r.Is (bytes "DeleteRecord") (deletePayload (mainConfig config) p) := by
  obtain ⟨-, quiet, dels, mods, hsent, -, -, hdels, -⟩ := mainSent_eq hrun hF
  obtain ⟨r, hr, his⟩ := hdels t p hp
  exact ⟨r, by rw [hsent]; simp [hr], his⟩

/-- A modification is sent for the first record of a family whose address is
confirmed. -/
theorem sent_modify {t : Dnspod.IpType} {p : Nat × DnsRecord} {text : Bytes}
    (hp : (F t).head? = some p) (htext : confirmed E config ifs w t = some text) :
    ∃ r ∈ mainSent E config ifs w,
      r.Is (bytes "ModifyRecord") (modifyPayload (mainConfig config) t p text) := by
  obtain ⟨-, quiet, dels, mods, hsent, -, -, -, hmods⟩ := mainSent_eq hrun hF
  have hsub : ∀ r ∈ mods t, r ∈ mainSent E config ifs w := by
    intro r hr
    rw [hsent]
    cases t <;> simp [hr]
  have hmod := hmods t
  rw [List.head?_eq_some_iff.mp hp |>.choose_spec, htext] at hmod
  obtain ⟨r, hr, his⟩ : ∃ r : Request, mods t = [r] ∧ r.Is (bytes "ModifyRecord")
    (modifyPayload (mainConfig config) t p text) := hmod
  exact ⟨r, hsub r (by rw [hr]; exact List.mem_cons_self), his⟩

/-- No other request changes anything. -/
theorem sent_cases {r : Request} (hr : r ∈ mainSent E config ifs w) :
    ¬ r.Mutates ∨
      (∃ t, ∃ p ∈ (F t).tail,
        r.Is (bytes "DeleteRecord") (deletePayload (mainConfig config) p)) ∨
      ∃ t p text, (F t).head? = some p ∧ confirmed E config ifs w t = some text ∧
        r.Is (bytes "ModifyRecord") (modifyPayload (mainConfig config) t p text) := by
  obtain ⟨-, quiet, dels, mods, hsent, hquiet, hdels, -, hmods⟩ := mainSent_eq hrun hF
  have hmodified : ∀ t, r ∈ mods t → ∃ t p text, (F t).head? = some p ∧
      confirmed E config ifs w t = some text ∧
      r.Is (bytes "ModifyRecord") (modifyPayload (mainConfig config) t p text) := by
    intro t hr
    have hmod := hmods t
    unfold Modifies at hmod
    split at hmod
    · next text record0 rest htext hrecords =>
      obtain ⟨q, hq, his⟩ := hmod
      obtain ⟨p, ps, hFt, rfl, -⟩ := List.map_eq_cons_iff.mp hrecords
      rw [hq, List.mem_singleton] at hr
      exact ⟨t, p, text, by rw [hFt]; rfl, htext, hr ▸ his⟩
    · rw [hmod] at hr
      exact absurd hr List.not_mem_nil
  rw [hsent] at hr
  rcases List.mem_append.mp hr with hr | hr
  · exact .inl (hquiet r hr)
  · right
    rcases List.mem_append.mp hr with hr | hr
    · rcases List.mem_append.mp hr with hr | hr
      · exact .inl (hdels r hr)
      · exact .inr (hmodified .classIpv4 hr)
    · exact .inr (hmodified .classIpv6 hr)

end Listed

/-! ## The zone after a run -/

section Fate

variable {F : Dnspod.IpType → List (Nat × DnsRecord)}
  (hservice : DnsService E (mainConfig config) R zone)
  (hdel : ReadsDeletes R (mainConfig config))
  (hmod : ∀ t text, confirmed E config ifs w t = some text →
    ReadsModify R (mainConfig config) text)
  (hfam : Families (mainConfig config) (zone w.net) F)
  (hF : ∀ t, (afterListing E config ifs w).2.dnspod.record t = (F t).map (cached t))

include hservice hF

theorem zone_main : zone (main E config ifs w).2.session.world.net =
    (accepted R (mainLog E config ifs w)).foldl Change.apply (zone w.net) :=
  (mainSent_eq (main_ends hservice) hF).1.zone_eq hservice

include hdel hmod hfam

/-- **The changes that a run makes**, each with the request that was granted. -/
theorem accepted_cases {c : Change Nat DnsRecord}
    (hc : c ∈ accepted R (mainLog E config ifs w)) :
    (∃ t, ∃ p ∈ (F t).tail, c = .erase p.1 ∧
      Granted E config ifs w (bytes "DeleteRecord") (deletePayload (mainConfig config) p)) ∨
    ∃ t p text, (F t).head? = some p ∧ confirmed E config ifs w t = some text ∧
      c = setAddress t p text ∧
      Granted E config ifs w (bytes "ModifyRecord")
        (modifyPayload (mainConfig config) t p text) := by
  obtain ⟨r, hr, hchange⟩ := mem_accepted.mp hc
  rcases sent_cases (main_ends hservice) hF (mem_of_mem_exchanges hr) with
    hquiet | ⟨t, p, hp, his⟩ | ⟨t, p, text, hp, htext, his⟩
  · rw [change_of_not_mutates hquiet] at hchange
    cases hchange
  · have hsmall := hfam.small t p (List.mem_of_mem_tail hp)
    rw [change_deletePayload hdel hsmall his] at hchange
    exact .inl ⟨t, p, hp, (Option.some.inj hchange).symm, r, hr, his⟩
  · have hsmall := hfam.small t p (List.mem_of_mem_head? hp)
    rw [change_modifyPayload (hmod t text htext) hsmall his] at hchange
    exact .inr ⟨t, p, text, hp, htext, (Option.some.inj hchange).symm, r, hr, his⟩

/-- A record that is not of a family keeps its value, and none appears. -/
theorem zone_main_other {id : Nat} (hid : ∀ t, ∀ p ∈ F t, p.1 ≠ id) :
    zone (main E config ifs w).2.session.world.net id = zone w.net id := by
  rw [zone_main hservice hF]
  refine foldl_apply_of_ne fun c hc => ?_
  rcases accepted_cases hservice hdel hmod hfam hF hc with
    ⟨t, p, hp, rfl, -⟩ | ⟨t, p, text, hp, -, rfl, -⟩
  · exact hid t p (List.mem_of_mem_tail hp)
  · exact hid t p (List.mem_of_mem_head? hp)

/-- A change of a record behind the first of its family is its deletion, granted. -/
theorem accepted_of_surplus {t : Dnspod.IpType} {p : Nat × DnsRecord} (hp : p ∈ (F t).tail)
    {c : Change Nat DnsRecord} (hc : c ∈ accepted R (mainLog E config ifs w))
    (hkey : c.key = p.1) : c = .erase p.1 ∧
      Granted E config ifs w (bytes "DeleteRecord") (deletePayload (mainConfig config) p) := by
  have hmem := List.mem_of_mem_tail hp
  rcases accepted_cases hservice hdel hmod hfam hF hc with
    ⟨t', q, hq, rfl, hgranted⟩ | ⟨t', q, text, hq, -, rfl, -⟩
  · obtain ⟨-, rfl⟩ := hfam.eq_of_id (List.mem_of_mem_tail hq) hmem hkey
    exact ⟨rfl, hgranted⟩
  · obtain ⟨rfl, rfl⟩ := hfam.eq_of_id (List.mem_of_mem_head? hq) hmem hkey
    exact absurd hp (hfam.not_mem_tail hq)

/-- A change of the first record of a family is its modification, granted. -/
theorem accepted_of_head {t : Dnspod.IpType} {p : Nat × DnsRecord} (hp : (F t).head? = some p)
    {c : Change Nat DnsRecord} (hc : c ∈ accepted R (mainLog E config ifs w))
    (hkey : c.key = p.1) :
    ∃ text, confirmed E config ifs w t = some text ∧ c = setAddress t p text ∧
      Granted E config ifs w (bytes "ModifyRecord")
        (modifyPayload (mainConfig config) t p text) := by
  have hmem := List.mem_of_mem_head? hp
  rcases accepted_cases hservice hdel hmod hfam hF hc with
    ⟨t', q, hq, rfl, -⟩ | ⟨t', q, text, hq, htext, rfl, hgranted⟩
  · obtain ⟨rfl, rfl⟩ := hfam.eq_of_id (List.mem_of_mem_tail hq) hmem hkey
    exact absurd hq (hfam.not_mem_tail hp)
  · obtain ⟨rfl, rfl⟩ := hfam.eq_of_id (List.mem_of_mem_head? hq) hmem hkey
    exact ⟨text, htext, rfl, hgranted⟩

/-- A record behind the first of its family goes if its deletion is granted. -/
theorem zone_main_surplus {t : Dnspod.IpType} {p : Nat × DnsRecord} (hp : p ∈ (F t).tail) :
    (Granted E config ifs w (bytes "DeleteRecord") (deletePayload (mainConfig config) p) →
      zone (main E config ifs w).2.session.world.net p.1 = none) ∧
    (¬ Granted E config ifs w (bytes "DeleteRecord") (deletePayload (mainConfig config) p) →
      zone (main E config ifs w).2.session.world.net p.1 = some p.2) := by
  have hmem := List.mem_of_mem_tail hp
  have hsame := fun c hc => accepted_of_surplus hservice hdel hmod hfam hF hp (c := c) hc
  rw [zone_main hservice hF]
  constructor
  · -- however often it was granted, the deletions of one record are one change
    rintro ⟨r, hr, his⟩
    have hc := mem_accepted.mpr ⟨r, hr, change_deletePayload hdel (hfam.small t p hmem) his⟩
    have hfold := foldl_apply_of_mem (zone w.net) hc (Change.idempotent_erase p.1)
      fun c hc hkey => (hsame c hc hkey).1
    have hz : zone w.net p.1 = some p.2 := (hfam.sound t p hmem).1
    refine hfold.trans ?_
    rw [show (Change.erase p.1 : Change Nat DnsRecord).key = p.1 from rfl, hz]
    rfl
  · intro hgranted
    rw [foldl_apply_of_ne fun c hc hkey => hgranted (hsame c hc hkey).2]
    exact (hfam.sound t p hmem).1

/-- The first record of a family keeps its value where no modification of it is granted. -/
theorem zone_main_head_kept {t : Dnspod.IpType} {p : Nat × DnsRecord}
    (hp : (F t).head? = some p)
    (hno : ∀ text, confirmed E config ifs w t = some text →
      ¬ Granted E config ifs w (bytes "ModifyRecord")
        (modifyPayload (mainConfig config) t p text)) :
    zone (main E config ifs w).2.session.world.net p.1 = some p.2 := by
  rw [zone_main hservice hF, foldl_apply_of_ne]
  · exact (hfam.sound t p (List.mem_of_mem_head? hp)).1
  · intro c hc hkey
    obtain ⟨text, htext, -, hgranted⟩ := accepted_of_head hservice hdel hmod hfam hF hp hc hkey
    exact hno text htext hgranted

/-- It has the confirmed address where one is granted. -/
theorem zone_main_head_updated {t : Dnspod.IpType} {p : Nat × DnsRecord} {text : Bytes}
    (hp : (F t).head? = some p) (htext : confirmed E config ifs w t = some text)
    (hgranted : Granted E config ifs w (bytes "ModifyRecord")
      (modifyPayload (mainConfig config) t p text)) :
    zone (main E config ifs w).2.session.world.net p.1 =
      some (p.2.modified (key t.typeText) (cStr text)) := by
  have hmem := List.mem_of_mem_head? hp
  have hz : zone w.net p.1 = some p.2 := (hfam.sound t p hmem).1
  obtain ⟨r, hr, his⟩ := hgranted
  have hc := mem_accepted.mpr
    ⟨r, hr, change_modifyPayload (hmod t text htext) (hfam.small t p hmem) his⟩
  have hfold := foldl_apply_of_mem (zone w.net) hc (idempotent_setAddress t p text)
    fun c hc hkey => by
      obtain ⟨text', htext', hset, -⟩ :=
        accepted_of_head hservice hdel hmod hfam hF hp hc hkey
      rw [htext] at htext'
      cases htext'
      exact hset
  rw [zone_main hservice hF]
  refine hfold.trans ?_
  rw [show (setAddress t p text).key = p.1 from rfl, hz]
  rfl

end Fate

/-! ## The whole run -/

/-- What becomes of the records `F` of a family, listed in this order: the first
one stays and gets the confirmed address, the others go, each as far as the
service grants the request for it. -/
structure FamilyOutcome (E : Env σ) (config : Bytes) (ifs : List Ifaddrs) (w : World σ)
    (t : Dnspod.IpType) (F : List (Nat × DnsRecord)) (z : Zone) : Prop where
  kept : ∀ p, F.head? = some p → confirmed E config ifs w t = none → z p.1 = some p.2
  updated : ∀ p text, F.head? = some p → confirmed E config ifs w t = some text →
    let payload := modifyPayload (mainConfig config) t p text
    (∃ r ∈ mainSent E config ifs w, r.Is (bytes "ModifyRecord") payload) ∧
      (Granted E config ifs w (bytes "ModifyRecord") payload →
        z p.1 = some ⟨p.2.name, p.2.type, cStr text⟩) ∧
      (¬ Granted E config ifs w (bytes "ModifyRecord") payload → z p.1 = some p.2)
  surplus : ∀ p ∈ F.tail,
    let payload := deletePayload (mainConfig config) p
    (∃ r ∈ mainSent E config ifs w, r.Is (bytes "DeleteRecord") payload) ∧
      (Granted E config ifs w (bytes "DeleteRecord") payload → z p.1 = none) ∧
      (¬ Granted E config ifs w (bytes "DeleteRecord") payload → z p.1 = some p.2)

/-- The outcome for each family, behind any service that reads the payloads. -/
theorem familyOutcome_main {F : Dnspod.IpType → List (Nat × DnsRecord)}
    (hservice : DnsService E (mainConfig config) R zone)
    (hdel : ReadsDeletes R (mainConfig config))
    (hmod : ∀ t text, confirmed E config ifs w t = some text →
      ReadsModify R (mainConfig config) text)
    (hfam : Families (mainConfig config) (zone w.net) F)
    (hF : ∀ t, (afterListing E config ifs w).2.dnspod.record t = (F t).map (cached t))
    (t : Dnspod.IpType) :
    FamilyOutcome E config ifs w t (F t) (zone (main E config ifs w).2.session.world.net) where
  kept p hp hnone := by
    refine zone_main_head_kept hservice hdel hmod hfam hF hp fun text htext => ?_
    rw [hnone] at htext
    cases htext
  updated p text hp htext := by
    have htype : p.2.type = key t.typeText := (hfam.sound t p (List.mem_of_mem_head? hp)).2.2
    refine ⟨sent_modify (main_ends hservice) hF hp htext, fun hgranted => ?_, fun hgranted => ?_⟩
    · have hhead := zone_main_head_updated hservice hdel hmod hfam hF hp htext hgranted
      rwa [DnsRecord.modified, ← htype] at hhead
    · refine zone_main_head_kept hservice hdel hmod hfam hF hp fun text' htext' => ?_
      rw [htext] at htext'
      cases htext'
      exact hgranted
  surplus p hp := ⟨sent_delete (main_ends hservice) hF hp,
    zone_main_surplus hservice hdel hmod hfam hF hp⟩

theorem plain_confirmed {t : Dnspod.IpType} {text : Bytes}
    (h : confirmed E config ifs w t = some text) : Json.PlainText text := by
  obtain ⟨a, -, rfl⟩ := confirmed_mem E config ifs w h
  have hchars : ∀ c ∈ Inet.textChars, 32 ≤ c ∧ c ≠ 34 ∧ c ≠ 92 := by decide
  exact fun c hc => hchars c (Ipaddress.IpType.mem_textChars hc)

end Run

/-- **One run of main updates exactly the right records.** Behind a DNS service
that reads JSON, whatever requests fail, a run with plain names ends, leaves
every record of another name or type as it is and makes none appear. A failed
listing leaves the whole zone as it is. After a listing in the order `L`, the
first record of each family stays and has the confirmed address exactly if there
is one and its modification was granted, and every other one goes exactly if its
deletion was granted. -/
theorem main_updates {E : Env σ} {zone : σ → Zone} {config : Bytes}
    (hplain : (mainConfig config).Plain)
    (hservice : DnsService E (mainConfig config) jsonReader zone) (ifs : List Ifaddrs)
    (w : World σ) :
    let z := zone w.net
    let z' := zone (main E config ifs w).2.session.world.net
    (main E config ifs w).1 = .ok () ∧
      (∀ id, (∀ e t, z id = some e → ¬ OfFamily (mainConfig config) t e) → z' id = z id) ∧
      (listingOk E config ifs w = false → z' = z) ∧
      (listingOk E config ifs w = true → ∃ L,
        Lists E.machine (mainConfig config) z (listingReply E config ifs w) L ∧
          ∀ t, FamilyOutcome E config ifs w t (family (mainConfig config) t L) z') := by
  intro z z'
  have hdel := jsonReader_readsDeletes hplain
  have hmod : ∀ t text, confirmed E config ifs w t = some text →
      ReadsModify jsonReader (mainConfig config) text :=
    fun t text htext => jsonReader_readsModify hplain (plain_confirmed htext)
  obtain ⟨b, F, -, hfam, hF, hlisting⟩ := listing_cases ifs w hservice
  refine ⟨main_ends hservice, fun id hid => ?_, fun hfail => ?_, fun hok => ?_⟩
  · refine zone_main_other hservice hdel hmod hfam hF fun t p hp heq => ?_
    obtain ⟨hz, hfamily⟩ := hfam.sound t p hp
    exact hid p.2 t (heq ▸ hz) hfamily
  · rcases hlisting with ⟨-, rfl⟩ | ⟨hok, -⟩
    · exact funext fun id => zone_main_other hservice hdel hmod hfam hF
        fun _ p hp => absurd hp List.not_mem_nil
    · rw [hok] at hfail
      cases hfail
  · rcases hlisting with ⟨hfail, -⟩ | ⟨-, L, hL, rfl⟩
    · rw [hok] at hfail
      cases hfail
    · exact ⟨L, hL, familyOutcome_main hservice hdel hmod hfam hF⟩

/-- A run that deletes record 8 and sets record 7. -/
theorem main_updates_sample :
    let E := Env.fixed SampleZone.perform
    let config := bytes "domain_name=example.com\n"
    let ifs : List Ifaddrs := [⟨some (.inet 0x08080808)⟩]
    let w : World SampleZone := ⟨⟨.old, true⟩, [], 0⟩
    (main E config ifs w).2.session.world.net = ⟨.new, false⟩ ∧
      (main E config ifs w).1 = .ok () ∧
      ∃ L, Lists E.machine (mainConfig config) (SampleZone.zone w.net)
          (listingReply E config ifs w) L ∧
        ∀ t, FamilyOutcome E config ifs w t (family (mainConfig config) t L)
          (SampleZone.zone (main E config ifs w).2.session.world.net) := by
  intro E config ifs w
  have hplain : (mainConfig config).Plain := ⟨by decide +kernel, by decide +kernel⟩
  have hservice : DnsService E (mainConfig config) jsonReader SampleZone.zone :=
    SampleZone.dnsService (by decide +kernel)
  obtain ⟨hend, -, -, hlisted⟩ := main_updates hplain hservice ifs w
  exact ⟨by decide +kernel, hend, hlisted (by decide +kernel)⟩

end DdnsCloudTencent
