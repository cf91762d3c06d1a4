import DdnsCloudTencent.Theory.SecondRun

/-!
# Runs over time

What the program is for: a name follows the address of a host. Seen from there,
the zone is one register for each family, a run writes to it the address that it
confirms, and the host may have other interfaces at every run.

- `history_keeps`: whatever fails in whatever run, every family keeps a record,
  and a record changes by deletion or by an address that some run confirmed;
- `history_last_wins`: where nothing fails, each family ends with one record,
  and its address is the one confirmed last.
-/

namespace DdnsCloudTencent

open Cxx Keyed

variable {σ : Type}

/-! ## Registers -/

/-- The record with the address set, if there is one. -/
def DnsRecord.set (e : DnsRecord) : Option Bytes → DnsRecord
  | none => e
  | some text => { e with value := cStr text }

/-- The last write wins. -/
theorem DnsRecord.set_set (e : DnsRecord) (a b : Option Bytes) :
    (e.set a).set b = e.set (b.or a) := by
  cases b with
  | none => rfl
  | some text => cases a <;> rfl

/-- The record of an id is of a family, and the only one. -/
structure Only (g : Config) (z : Zone) (t : Dnspod.IpType) (id : Nat) (e : DnsRecord) : Prop where
  record : z id = some e
  family : OfFamily g t e
  unique : ∀ id', InFamily g z t id' → id' = id

/-- The zone before and after a run that confirms the addresses `conf`. -/
structure Evolves (g : Config) (conf : Dnspod.IpType → List Bytes) (z z' : Zone) : Prop where
  keeps : KeepsFamilies g z z'
  record : ∀ id, z' id = z id ∨ ∃ t e, z id = some e ∧ OfFamily g t e ∧
    (z' id = none ∨ ∃ text ∈ conf t, z' id = some (e.set (some text)))

theorem Evolves.refl (g : Config) (conf : Dnspod.IpType → List Bytes) (z : Zone) :
    Evolves g conf z z :=
  ⟨fun _ h => h, fun _ => .inl rfl⟩

theorem OfFamily.set {g : Config} {t : Dnspod.IpType} {e : DnsRecord} (h : OfFamily g t e)
    (a : Option Bytes) : OfFamily g t (e.set a) := by
  cases a with
  | none => exact h
  | some text => exact h

theorem Evolves.trans {g : Config} {conf conf' : Dnspod.IpType → List Bytes} {z z' z'' : Zone}
    (h : Evolves g conf z z') (h' : Evolves g conf' z' z'') :
    Evolves g (fun t => conf' t ++ conf t) z z'' where
  keeps t ht := h'.keeps t (h.keeps t ht)
  record id := by
    rcases h'.record id with hsame' | ⟨t', e', he', hof', hrest'⟩
    · -- the second run leaves the record alone
      rw [hsame']
      rcases h.record id with hsame | ⟨t, e, he, hof, hnone | ⟨text, htext, hset⟩⟩
      · exact .inl hsame
      · exact .inr ⟨t, e, he, hof, .inl hnone⟩
      · exact .inr ⟨t, e, he, hof, .inr ⟨text, List.mem_append_right _ htext, hset⟩⟩
    · right
      rcases h.record id with hsame | ⟨t, e, he, hof, hnone | ⟨text, htext, hset⟩⟩
      · refine ⟨t', e', hsame ▸ he', hof', hrest'.imp_right ?_⟩
        rintro ⟨text, htext, hset⟩
        exact ⟨text, List.mem_append_left _ htext, hset⟩
      · rw [hnone] at he'
        cases he'
      · -- both set it, and it is of one family
        rw [hset] at he'
        obtain rfl := Option.some.inj he'
        obtain rfl := (hof.set (some text)).unique hof'
        refine ⟨t, e, he, hof, hrest'.imp_right ?_⟩
        rintro ⟨text', htext', hset'⟩
        exact ⟨text', List.mem_append_left _ htext', by rw [hset', DnsRecord.set_set]; rfl⟩

/-! ## One run -/

section Run

variable {E : Env σ} {config : Bytes} {ifs : List Ifaddrs} {w : World σ} {zone : σ → Zone}

/-- **A run with any failures.** -/
theorem main_evolves (hplain : (mainConfig config).Plain)
    (hservice : DnsService E (mainConfig config) jsonReader zone) (ifs : List Ifaddrs)
    (w : World σ) :
    Evolves (mainConfig config) (fun t => (confirmed E config ifs w t).toList) (zone w.net)
      (zone (main E config ifs w).2.session.world.net) := by
  obtain ⟨-, hother, hfailed, hlisted⟩ := main_updates hplain hservice ifs w
  cases hok : listingOk E config ifs w with
  | false =>
    rw [hfailed hok]
    exact Evolves.refl _ _ _
  | true =>
    obtain ⟨L, hL, hout⟩ := hlisted hok
    have hof : ∀ {t p}, p ∈ family (mainConfig config) t L →
        zone w.net p.1 = some p.2 ∧ OfFamily (mainConfig config) t p.2 := fun hp =>
      ⟨((hL.mem_iff _ _).mp (mem_family.mp hp).1).1, (mem_family.mp hp).2⟩
    -- the first record of a family stays, as it is or with the new address
    have hhead : ∀ {t p}, (family (mainConfig config) t L).head? = some p →
        zone (main E config ifs w).2.session.world.net p.1 = some p.2 ∨
          ∃ text ∈ (confirmed E config ifs w t).toList,
            zone (main E config ifs w).2.session.world.net p.1 = some (p.2.set (some text)) := by
      intro t p hp
      cases htext : confirmed E config ifs w t with
      | none => exact .inl ((hout t).kept p hp htext)
      | some text =>
        obtain ⟨-, hyes, hno⟩ := (hout t).updated p text hp htext
        by_cases hgranted : Granted E config ifs w (bytes "ModifyRecord")
            (modifyPayload (mainConfig config) t p text)
        · exact .inr ⟨text, List.mem_singleton_self text, hyes hgranted⟩
        · exact .inl (hno hgranted)
    constructor
    · rintro t ⟨id, hid⟩
      obtain ⟨p, hp, -⟩ := hL.inFamily_iff.mp hid
      obtain ⟨q, hq⟩ := exists_head_of_mem hp
      have hqof := (hof (List.mem_of_mem_head? hq)).2
      rcases hhead hq with hsame | ⟨text, -, hset⟩
      · exact ⟨q.1, q.2, hsame, hqof⟩
      · exact ⟨q.1, _, hset, hqof.set (some text)⟩
    · intro id
      by_cases hid : ∃ e t, zone w.net id = some e ∧ OfFamily (mainConfig config) t e
      · obtain ⟨e, t, he, hfam⟩ := hid
        have hp : (id, e) ∈ family (mainConfig config) t L :=
          mem_family.mpr ⟨(hL.mem_iff id e).mpr ⟨he, hfam.inScope⟩, hfam⟩
        rcases head_or_tail_of_mem hp with hfirst | htail
        · rcases hhead hfirst with hsame | hset
          · exact .inl (hsame.trans he.symm)
          · exact .inr ⟨t, e, he, hfam, .inr hset⟩
        · obtain ⟨-, hyes, hno⟩ := (hout t).surplus (id, e) htail
          by_cases hgranted : Granted E config ifs w (bytes "DeleteRecord")
              (deletePayload (mainConfig config) (id, e))
          · exact .inr ⟨t, e, he, hfam, .inl (hyes hgranted)⟩
          · exact .inl ((hno hgranted).trans he.symm)
      · exact .inl (hother id fun e t he hfam => hid ⟨e, t, he, hfam⟩)

/-- **A run without failures** writes the address that it confirms to one of the
records of a family, and leaves no other. -/
theorem main_writes (hplain : (mainConfig config).Plain)
    (hservice : DnsService E (mainConfig config) jsonReader zone)
    (hall : AllSucceed E config ifs w) {t : Dnspod.IpType}
    (ht : ∃ id, InFamily (mainConfig config) (zone w.net) t id) :
    ∃ id e, zone w.net id = some e ∧ OfFamily (mainConfig config) t e ∧
      Only (mainConfig config) (zone (main E config ifs w).2.session.world.net) t id
        (e.set (confirmed E config ifs w t)) := by
  have hdel := jsonReader_readsDeletes hplain
  have hmod : ∀ t text, confirmed E config ifs w t = some text →
      ReadsModify jsonReader (mainConfig config) text :=
    fun t text htext => jsonReader_readsModify hplain (plain_confirmed htext)
  obtain ⟨L, hL, hfam, hF⟩ := hall.listing hservice
  have hafter := inFamily_main_iff hservice hdel hmod hall hfam hF hL t
  have hout := familyOutcome_main hservice hdel hmod hfam hF t
  obtain ⟨id, hid⟩ := ht
  obtain ⟨q, hq, -⟩ := hL.inFamily_iff.mp hid
  obtain ⟨p, hp⟩ := exists_head_of_mem hq
  obtain ⟨hz, hof⟩ := hfam.sound t p (List.mem_of_mem_head? hp)
  refine ⟨p.1, p.2, hz, hof, ?_, hof.set _, fun id' hid' => ?_⟩
  · cases htext : confirmed E config ifs w t with
    | none => exact hout.kept p hp htext
    | some text =>
      obtain ⟨hsent, hgranted, -⟩ := hout.updated p text hp htext
      exact hgranted (hall.granted hsent)
  · obtain ⟨p', hp', rfl⟩ := (hafter id').mp hid'
    rw [hp] at hp'
    rw [Option.some.inj hp']

end Run

/-! ## Many runs -/

/-- The world after some runs, and the addresses that they have confirmed, the
latest one first. -/
structure History (σ : Type) where
  world : World σ
  confirmed : Dnspod.IpType → List Bytes

/-- One more run, on a host with these interfaces. -/
def History.run (E : Env σ) (config : Bytes) (h : History σ) (ifs : List Ifaddrs) : History σ where
  world := (main E config ifs h.world).2.session.world
  confirmed t := (DdnsCloudTencent.confirmed E config ifs h.world t).toList ++ h.confirmed t

/-- No runs yet. -/
def History.start (w : World σ) : History σ := ⟨w, fun _ => []⟩

/-- **Any runs with any failures.** A family keeps a record, records of other
names and types are untouched, none appears, and an address that is set is one
that some run confirmed. -/
theorem history_keeps {E : Env σ} {config : Bytes} {zone : σ → Zone}
    (hplain : (mainConfig config).Plain)
    (hservice : DnsService E (mainConfig config) jsonReader zone) (w : World σ)
    (hosts : List (List Ifaddrs)) :
    let h := hosts.foldl (History.run E config) (History.start w)
    Evolves (mainConfig config) h.confirmed (zone w.net) (zone h.world.net) := by
  intro h
  have hinv : ∀ h : History σ, Evolves (mainConfig config) h.confirmed (zone w.net)
      (zone h.world.net) → ∀ ifs, Evolves (mainConfig config) (h.run E config ifs).confirmed
        (zone w.net) (zone (h.run E config ifs).world.net) :=
    fun h hh ifs => hh.trans (main_evolves hplain hservice ifs h.world)
  have hguard : Runs.Guarded (History.run E config) (fun _ _ => True) (History.start w) hosts :=
    Runs.guarded_of_forall (fun _ _ => trivial) _ hosts
  exact Runs.foldl_of_guarded (fun h ifs _ hh _ => hinv h hh ifs) (Evolves.refl _ _ _) hguard

/-- Two runs over the sample service, the first on a host without an address. -/
theorem history_keeps_sample :
    let E := Env.fixed SampleZone.perform
    let config := bytes "domain_name=example.com\n"
    let w : World SampleZone := ⟨⟨.old, true⟩, [], 0⟩
    let h := [[], [⟨some (.inet 0x08080808)⟩]].foldl (History.run E config) (History.start w)
    KeepsFamilies (mainConfig config) (SampleZone.zone w.net) (SampleZone.zone h.world.net) := by
  intro E config w h
  have hplain : (mainConfig config).Plain := ⟨by decide +kernel, by decide +kernel⟩
  have hservice : DnsService E (mainConfig config) jsonReader SampleZone.zone :=
    SampleZone.dnsService (by decide +kernel)
  exact (history_keeps hplain hservice w [[], [⟨some (.inet 0x08080808)⟩]]).keeps

/-- **The last address wins.** After any runs in which nothing fails, a family
that had records has one of them and no other, with the address that was
confirmed last if there is any. -/
theorem history_last_wins {E : Env σ} {config : Bytes} {zone : σ → Zone}
    (hplain : (mainConfig config).Plain)
    (hservice : DnsService E (mainConfig config) jsonReader zone) (w : World σ)
    (ifs : List Ifaddrs) (hosts : List (List Ifaddrs))
    (hall : Runs.Guarded (History.run E config)
      (fun h ifs => AllSucceed E config ifs h.world) (History.start w) (ifs :: hosts))
    (t : Dnspod.IpType) (ht : ∃ id, InFamily (mainConfig config) (zone w.net) t id) :
    let h := (ifs :: hosts).foldl (History.run E config) (History.start w)
    ∃ id e, zone w.net id = some e ∧ OfFamily (mainConfig config) t e ∧
      Only (mainConfig config) (zone h.world.net) t id (e.set (h.confirmed t).head?) := by
  intro h
  have hall₀ : AllSucceed E config ifs w := hall.1
  obtain ⟨id, e, hz, hof, hfirst⟩ := main_writes hplain hservice hall₀ ht
  refine ⟨id, e, hz, hof, ?_⟩
  -- from the first run on there is one record, and each run writes to it
  have hstep : ∀ (h : History σ) (ifs : List Ifaddrs),
      Only (mainConfig config) (zone h.world.net) t id (e.set (h.confirmed t).head?) →
      AllSucceed E config ifs h.world →
      Only (mainConfig config) (zone (h.run E config ifs).world.net) t id
        (e.set ((h.run E config ifs).confirmed t).head?) := by
    intro h ifs honly hall
    obtain ⟨id', e', hz', hof', hwritten⟩ :=
      main_writes hplain hservice hall ⟨id, _, honly.record, honly.family⟩
    obtain rfl := honly.unique id' ⟨e', hz', hof'⟩
    rw [honly.record] at hz'
    obtain rfl := Option.some.inj hz'
    have hlast : ((h.run E config ifs).confirmed t).head? =
        (confirmed E config ifs h.world t).or (h.confirmed t).head? := by
      show ((confirmed E config ifs h.world t).toList ++ h.confirmed t).head? = _
      cases confirmed E config ifs h.world t <;> rfl
    rw [hlast, ← DnsRecord.set_set]
    exact hwritten
  refine Runs.foldl_of_guarded (s := (History.start w).run E config ifs)
    (P := fun h => Only (mainConfig config) (zone h.world.net) t id (e.set (h.confirmed t).head?))
    (fun h ifs _ honly hall => hstep h ifs honly hall) ?_ hall.2
  have hlast : (((History.start w).run E config ifs).confirmed t).head? =
      confirmed E config ifs w t := by
    show ((confirmed E config ifs w t).toList ++ []).head? = _
    cases confirmed E config ifs w t <;> rfl
  rw [hlast]
  exact hfirst

/-- Three runs over the sample service: the address of the second one stays. -/
theorem history_last_wins_sample :
    let E := Env.fixed SampleZone.perform
    let config := bytes "domain_name=example.com\n"
    let w : World SampleZone := ⟨⟨.old, true⟩, [], 0⟩
    let h := [[], [⟨some (.inet 0x08080808)⟩], []].foldl (History.run E config) (History.start w)
    (h.confirmed .classIpv4).head? = some (bytes "8.8.8.8") ∧
      ∃ id e, SampleZone.zone w.net id = some e ∧ OfFamily (mainConfig config) .classIpv4 e ∧
        Only (mainConfig config) (SampleZone.zone h.world.net) .classIpv4 id
          (e.set (h.confirmed .classIpv4).head?) := by
  intro E config w h
  have hplain : (mainConfig config).Plain := ⟨by decide +kernel, by decide +kernel⟩
  have hservice : DnsService E (mainConfig config) jsonReader SampleZone.zone :=
    SampleZone.dnsService (by decide +kernel)
  refine ⟨by decide +kernel, history_last_wins hplain hservice w []
    [[⟨some (.inet 0x08080808)⟩], []] ?_ .classIpv4 ⟨7, _, rfl, by decide +kernel, rfl⟩⟩
  unfold AllSucceed
  decide +kernel

end DdnsCloudTencent
