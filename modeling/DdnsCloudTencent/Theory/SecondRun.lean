import DdnsCloudTencent.Theory.KeepOne

/-!
# Running main twice (main.cpp:97)

The README compares the address of the domain with the new one behind NAT only,
a mode that is not there; the other one updates where the addresses are equal.
The zone that a run leaves has one record for each family that had one, so that a
second run deletes nothing, and it sends the address it confirms again:
`dnspod_record_modify` does not look at the value that the listing gave.

- `inFamily_main_iff`: the records of the families after a run without failures;
- `confirmed_again`: a second run confirms the same addresses;
- `zone_main_again`: so it leaves the zone as it is;
- `second_run_silent_iff`: but it is silent exactly if no family has both a
  confirmed address and a record.
-/

namespace DdnsCloudTencent

open Cxx Keyed

variable {σ : Type}

/-! ## A run without failures -/

theorem mem_exchanges_middle (E : Env σ) (before after : List Request) (r : Request) (st : σ) :
    (r, (E.perform r (before.foldl (fun st r => (E.perform r st).2) st)).1.ok) ∈
      exchanges E (before ++ r :: after) st := by
  induction before generalizing st with
  | nil => exact List.mem_cons_self
  | cons q before ih => exact List.mem_cons_of_mem _ (ih _)

/-- A member of a list stands first or among the rest. -/
theorem head_or_tail_of_mem {α : Type} {l : List α} {x : α} (h : x ∈ l) :
    l.head? = some x ∨ x ∈ l.tail := by
  cases l with
  | nil => exact absurd h List.not_mem_nil
  | cons y l => exact (List.mem_cons.mp h).imp (fun hx => congrArg some hx.symm) id

theorem exists_head_of_mem {α : Type} {l : List α} {x : α} (h : x ∈ l) :
    ∃ y, l.head? = some y := by
  obtain ⟨y, l', rfl⟩ := List.exists_cons_of_ne_nil (List.ne_nil_of_mem h)
  exact ⟨y, rfl⟩

section Run

variable {E : Env σ} {config : Bytes} {ifs : List Ifaddrs} {w : World σ} {R : BodyReader}
  {zone : σ → Zone}

/-- Every request of a run succeeds. -/
def AllSucceed (E : Env σ) (config : Bytes) (ifs : List Ifaddrs) (w : World σ) : Prop :=
  ∀ p ∈ mainLog E config ifs w, p.2 = true

theorem AllSucceed.granted (h : AllSucceed E config ifs w) {action payload : Bytes}
    (hsent : ∃ r ∈ mainSent E config ifs w, r.Is action payload) :
    Granted E config ifs w action payload := by
  obtain ⟨r, hr, his⟩ := hsent
  have hr' : r ∈ (mainLog E config ifs w).map Prod.fst := by
    rw [mainLog, map_fst_exchanges]
    exact hr
  obtain ⟨⟨q, ok⟩, hmem, rfl⟩ := List.mem_map.mp hr'
  have hok : ok = true := h _ hmem
  subst hok
  exact ⟨q, hmem, his⟩

theorem AllSucceed.listingOk (h : AllSucceed E config ifs w)
    (hrun : (main E config ifs w).1 = .ok ()) : listingOk E config ifs w = true := by
  obtain ⟨dom, hdom, hdomains⟩ := sends_afterDomainList E config ifs w
  have hlist : Sends E (afterDomainList E config ifs w).world (afterListing E config ifs w).2.world
      [listingRequest E config ifs w] := sends_decodeInto (sends_signedPost E _ _ _)
  obtain ⟨-, -, dels, mods4, mods6, -, -, -, -, -, hrest, -⟩ := sends_main E config ifs w hrun
  have hsent : mainSent E config ifs w = (ipChecks (mainConfig config) ++ [dom]) ++
      listingRequest E config ifs w :: (dels ++ mods4 ++ mods6) := by
    unfold mainSent
    rw [((hdomains.trans hlist).trans hrest).sent, List.drop_left, List.append_assoc]
    rfl
  have hmem := mem_exchanges_middle E (ipChecks (mainConfig config) ++ [dom])
    (dels ++ mods4 ++ mods6) (listingRequest E config ifs w) w.net
  rw [← hdomains.net, ← hsent] at hmem
  exact h _ hmem

/-- The listing of such a run. -/
theorem AllSucceed.listing (h : AllSucceed E config ifs w)
    (hservice : DnsService E (mainConfig config) R zone) :
    ∃ L, Lists E.machine (mainConfig config) (zone w.net) (listingReply E config ifs w) L ∧
      Families (mainConfig config) (zone w.net) (fun t => family (mainConfig config) t L) ∧
      ∀ t, (afterListing E config ifs w).2.dnspod.record t =
        (family (mainConfig config) t L).map (cached t) := by
  obtain ⟨b, F, -, hfam, hF, ⟨hfail, -⟩ | ⟨-, L, hL, rfl⟩⟩ := listing_cases ifs w hservice
  · rw [h.listingOk (main_ends hservice)] at hfail
    cases hfail
  · exact ⟨L, hL, hfam, hF⟩

theorem Lists.inFamily_iff {M : Machine} {g : Config} {z : Zone} {body : Bytes}
    {L : List (Nat × DnsRecord)} (h : Lists M g z body L) {t : Dnspod.IpType} {id : Nat} :
    InFamily g z t id ↔ ∃ p ∈ family g t L, p.1 = id := by
  constructor
  · rintro ⟨e, he, hof⟩
    exact ⟨(id, e), mem_family.mpr ⟨(h.mem_iff id e).mpr ⟨he, hof.inScope⟩, hof⟩, rfl⟩
  · rintro ⟨p, hp, rfl⟩
    obtain ⟨hmem, hof⟩ := mem_family.mp hp
    exact ⟨p.2, ((h.mem_iff p.1 p.2).mp hmem).1, hof⟩

section After

variable {L : List (Nat × DnsRecord)}
  (hservice : DnsService E (mainConfig config) R zone)
  (hdel : ReadsDeletes R (mainConfig config))
  (hmod : ∀ t text, confirmed E config ifs w t = some text →
    ReadsModify R (mainConfig config) text)
  (hall : AllSucceed E config ifs w)
  (hfam : Families (mainConfig config) (zone w.net) (fun t => family (mainConfig config) t L))
  (hF : ∀ t, (afterListing E config ifs w).2.dnspod.record t =
    (family (mainConfig config) t L).map (cached t))

include hservice hdel hmod hall hfam hF

/-- The record of a family that was listed first stays in the family, modified or not. -/
theorem inFamily_main_of_head {t : Dnspod.IpType} {p : Nat × DnsRecord}
    (hp : (family (mainConfig config) t L).head? = some p) :
    InFamily (mainConfig config) (zone (main E config ifs w).2.session.world.net) t p.1 := by
  have hout := familyOutcome_main hservice hdel hmod hfam hF
  have hof : OfFamily (mainConfig config) t p.2 := (mem_family.mp (List.mem_of_mem_head? hp)).2
  cases hc : confirmed E config ifs w t with
  | none => exact ⟨p.2, (hout t).kept p hp hc, hof⟩
  | some text =>
    obtain ⟨hsent, hgranted, -⟩ := (hout t).updated p text hp hc
    exact ⟨_, hgranted (hall.granted hsent), hof⟩

/-- **After a run without failures** the only record of a family is the one that
was listed first. -/
theorem inFamily_main_iff
    (hL : Lists E.machine (mainConfig config) (zone w.net) (listingReply E config ifs w) L)
    (t : Dnspod.IpType) (id : Nat) :
    InFamily (mainConfig config) (zone (main E config ifs w).2.session.world.net) t id ↔
      ∃ p, (family (mainConfig config) t L).head? = some p ∧ p.1 = id := by
  have hout := familyOutcome_main hservice hdel hmod hfam hF
  constructor
  · rintro ⟨e, he, hof⟩
    by_cases hlisted : ∃ t', ∃ p ∈ family (mainConfig config) t' L, p.1 = id
    · obtain ⟨t', p, hp, rfl⟩ := hlisted
      rcases head_or_tail_of_mem hp with hfirst | htail
      · -- a record is of one family only
        have hkept := inFamily_main_of_head hservice hdel hmod hall hfam hF hfirst
        obtain rfl := hkept.unique ⟨e, he, hof⟩
        exact ⟨p, hfirst, rfl⟩
      · -- the surplus is deleted
        obtain ⟨hsent, hgranted, -⟩ := (hout t').surplus p htail
        rw [hgranted (hall.granted hsent)] at he
        cases he
    · -- what no family lists is untouched, so it was in the family before: then it is listed
      have hother := zone_main_other hservice hdel hmod hfam hF
        fun t' p hp heq => hlisted ⟨t', p, hp, heq⟩
      rw [hother] at he
      obtain ⟨p, hp, hid⟩ := hL.inFamily_iff.mp ⟨e, he, hof⟩
      exact absurd ⟨t, p, hp, hid⟩ hlisted
  · rintro ⟨p, hp, rfl⟩
    exact inFamily_main_of_head hservice hdel hmod hall hfam hF hp

end After

/-! ## The second run -/

/-- Where the IP checks answer the same in every state, a later run confirms the
same addresses. -/
theorem confirmed_again
    (hweb : ∀ r st st', r.action = none → (E.perform r st).1.body = (E.perform r st').1.body)
    (w' : World σ) (t : Dnspod.IpType) :
    confirmed E config ifs w' t = confirmed E config ifs w t := by
  have hreply : checkReply E config w' t = checkReply E config w t := by
    unfold checkReply
    cases t with
    | classIpv4 => exact hweb _ _ _ (action_ipCheckRequest _)
    | classIpv6 => exact hweb _ _ _ (action_ipCheckRequest _)
  refine Option.ext fun text => ?_
  rw [confirmed_eq_some_iff, confirmed_eq_some_iff, hreply]

/-- The service reports the first public address of the family on the host, and
the zone has a record of the family. -/
def Updatable (E : Env σ) (config : Bytes) (ifs : List Ifaddrs) (w : World σ) (z : Zone)
    (t : Dnspod.IpType) : Prop :=
  publicText E.machine t.addrType ifs = some (stripEol (checkReply E config w t)) ∧
    ∃ id, InFamily (mainConfig config) z t id

theorem updatable_iff {z : Zone} {t : Dnspod.IpType} :
    Updatable E config ifs w z t ↔ (∃ text, confirmed E config ifs w t = some text) ∧
      ∃ id, InFamily (mainConfig config) z t id := by
  unfold Updatable
  refine and_congr_left fun _ => ?_
  constructor
  · exact fun h => ⟨_, (confirmed_eq_some_iff E config ifs w t _).mpr ⟨h, rfl⟩⟩
  · rintro ⟨text, htext⟩
    obtain ⟨hpublic, rfl⟩ := (confirmed_eq_some_iff E config ifs w t text).mp htext
    exact hpublic

/-- The modifications of a run set a value that the record does not have. -/
def ChangesValues (E : Env σ) (R : BodyReader) (zone : σ → Zone) (config : Bytes)
    (ifs : List Ifaddrs) (w : World σ) : Prop :=
  ∀ r ∈ mainSent E config ifs w, r.action = some (bytes "ModifyRecord") →
    ∀ a, r.postFields.bind R.modifyArgs = some a →
      ∀ e, zone w.net a.id = some e → e.value ≠ a.value

/-- A run that can update nothing modifies nothing. -/
theorem not_modify_of_not_updatable (hservice : DnsService E (mainConfig config) R zone)
    (hall : AllSucceed E config ifs w)
    (hnone : ∀ t, ¬ Updatable E config ifs w (zone w.net) t) {r : Request}
    (hr : r ∈ mainSent E config ifs w) : r.action ≠ some (bytes "ModifyRecord") := by
  obtain ⟨L, hL, hfam, hF⟩ := hall.listing hservice
  intro hmodify
  rcases sent_cases (main_ends hservice) hF hr with
    hquiet | ⟨t, p, -, his⟩ | ⟨t, p, text, hp, htext, -⟩
  · exact hquiet (.inr hmodify)
  · have heq := his.action.symm.trans hmodify
    exact absurd (Option.some.inj heq) (by decide)
  · have hin := hL.inFamily_iff.mpr ⟨p, List.mem_of_mem_head? hp, rfl⟩
    exact hnone t (updatable_iff.mpr ⟨⟨text, htext⟩, _, hin⟩)

/-- A run that can update a family modifies a record. -/
theorem modify_of_updatable (hservice : DnsService E (mainConfig config) R zone)
    (hall : AllSucceed E config ifs w) {t : Dnspod.IpType}
    (h : Updatable E config ifs w (zone w.net) t) :
    ∃ r ∈ mainSent E config ifs w, r.action = some (bytes "ModifyRecord") := by
  obtain ⟨L, hL, -, hF⟩ := hall.listing hservice
  obtain ⟨⟨text, htext⟩, id, hid⟩ := updatable_iff.mp h
  obtain ⟨p, hp, -⟩ := hL.inFamily_iff.mp hid
  obtain ⟨q, hq⟩ := exists_head_of_mem hp
  obtain ⟨r, hr, his⟩ := sent_modify (main_ends hservice) hF hq htext
  exact ⟨r, hr, his.action⟩

/-- A run deletes nothing where no family has two records. -/
theorem not_delete_of_single (hservice : DnsService E (mainConfig config) R zone)
    (hall : AllSucceed E config ifs w)
    (hsingle : ∀ t id id', InFamily (mainConfig config) (zone w.net) t id →
      InFamily (mainConfig config) (zone w.net) t id' → id = id') {r : Request}
    (hr : r ∈ mainSent E config ifs w) : r.action ≠ some (bytes "DeleteRecord") := by
  obtain ⟨L, hL, hfam, hF⟩ := hall.listing hservice
  intro hdelete
  rcases sent_cases (main_ends hservice) hF hr with
    hquiet | ⟨t, p, hp, -⟩ | ⟨t, p, text, -, -, his⟩
  · exact hquiet (.inl hdelete)
  · -- the record deleted and the first one of its family are two
    cases hcons : family (mainConfig config) t L with
    | nil =>
      rw [hcons] at hp
      exact absurd hp List.not_mem_nil
    | cons q rest =>
      rw [hcons] at hp
      have hin : ∀ x ∈ q :: rest, InFamily (mainConfig config) (zone w.net) t x.1 :=
        fun x hx => hL.inFamily_iff.mpr ⟨x, hcons ▸ hx, rfl⟩
      exact hfam.head_ne hcons hp
        (hsingle t _ _ (hin q List.mem_cons_self) (hin p (List.mem_cons_of_mem q hp)))
  · have heq := his.action.symm.trans hdelete
    exact absurd (Option.some.inj heq) (by decide)

section Again

variable {L : List (Nat × DnsRecord)}
  (hservice : DnsService E (mainConfig config) R zone)
  (hdel : ReadsDeletes R (mainConfig config))
  (hmod : ∀ t text, confirmed E config ifs w t = some text →
    ReadsModify R (mainConfig config) text)
  (hall : AllSucceed E config ifs w)
  (hfam : Families (mainConfig config) (zone w.net) (fun t => family (mainConfig config) t L))
  (hF : ∀ t, (afterListing E config ifs w).2.dnspod.record t =
    (family (mainConfig config) t L).map (cached t))
  (hL : Lists E.machine (mainConfig config) (zone w.net) (listingReply E config ifs w) L)

include hservice hdel hmod hall hfam hF hL

/-- A run without failures leaves one record of a family at most. -/
theorem single_main (t : Dnspod.IpType) (id id' : Nat)
    (hid : InFamily (mainConfig config) (zone (main E config ifs w).2.session.world.net) t id)
    (hid' : InFamily (mainConfig config) (zone (main E config ifs w).2.session.world.net) t id') :
    id = id' := by
  have hafter := inFamily_main_iff hservice hdel hmod hall hfam hF hL
  obtain ⟨p, hp, rfl⟩ := (hafter t id).mp hid
  obtain ⟨q, hq, rfl⟩ := (hafter t id').mp hid'
  rw [hp] at hq
  exact congrArg Prod.fst (Option.some.inj hq)

/-- The records of a family with a confirmed address have it as their value. -/
theorem value_main (t : Dnspod.IpType) (text : Bytes)
    (htext : confirmed E config ifs w t = some text) (id : Nat) (e : DnsRecord)
    (he : zone (main E config ifs w).2.session.world.net id = some e)
    (hof : OfFamily (mainConfig config) t e) : e.value = cStr text := by
  obtain ⟨p, hp, rfl⟩ :=
    (inFamily_main_iff hservice hdel hmod hall hfam hF hL t id).mp ⟨e, he, hof⟩
  obtain ⟨hsent, hgranted, -⟩ :=
    (familyOutcome_main hservice hdel hmod hfam hF t).updated p text hp htext
  rw [hgranted (hall.granted hsent)] at he
  exact congrArg DnsRecord.value (Option.some.inj he).symm

/-- **The zone that a run without failures leaves is a fixed point**: a second one
deletes nothing and sets the values that are there. -/
theorem zone_main_again
    (hweb : ∀ r st st', r.action = none → (E.perform r st).1.body = (E.perform r st').1.body)
    (hsecond : AllSucceed E config ifs (main E config ifs w).2.session.world) :
    zone (main E config ifs (main E config ifs w).2.session.world).2.session.world.net =
      zone (main E config ifs w).2.session.world.net := by
  have hsingle := single_main hservice hdel hmod hall hfam hF hL
  have hvalue := value_main hservice hdel hmod hall hfam hF hL
  generalize (main E config ifs w).2.session.world = w' at hsecond hsingle hvalue ⊢
  have hconfirmed : ∀ t, confirmed E config ifs w' t = confirmed E config ifs w t :=
    confirmed_again hweb w'
  have hmod' : ∀ t text, confirmed E config ifs w' t = some text →
      ReadsModify R (mainConfig config) text :=
    fun t text htext => hmod t text (hconfirmed t ▸ htext)
  obtain ⟨L', hL', hfam', hF'⟩ := hsecond.listing hservice
  have hout := familyOutcome_main hservice hdel hmod' hfam' hF'
  funext id
  by_cases hlisted : ∃ t, ∃ p ∈ family (mainConfig config) t L', p.1 = id
  · obtain ⟨t, p, hp, rfl⟩ := hlisted
    obtain ⟨hz, hof⟩ := hfam'.sound t p hp
    rw [hz]
    rcases head_or_tail_of_mem hp with hhead | htail
    · cases hc : confirmed E config ifs w' t with
      | none => exact (hout t).kept p hhead hc
      | some text =>
        -- the value is the one that the first run has set
        obtain ⟨hsent, hgranted, -⟩ := (hout t).updated p text hhead hc
        rw [hgranted (hsecond.granted hsent), ← hvalue t text (hconfirmed t ▸ hc) p.1 p.2 hz hof]
    · -- a second record of the family
      obtain ⟨q, hq⟩ := exists_head_of_mem hp
      obtain ⟨rest, hrest⟩ := List.head?_eq_some_iff.mp hq
      have hqin := hfam'.sound t q (List.mem_of_mem_head? hq)
      have heq : q.1 = p.1 := hsingle t q.1 p.1 ⟨q.2, hqin⟩ ⟨p.2, hz, hof⟩
      rw [hrest] at htail
      exact absurd heq (hfam'.head_ne hrest htail)
  · exact zone_main_other hservice hdel hmod' hfam' hF' fun t p hp heq => hlisted ⟨t, p, hp, heq⟩

end Again

end Run

/-- **A second run changes nothing.** It sends no deletion and leaves every record
as the first run left it. But it is silent, with no modification of either run
setting the value that is there, exactly if no family can be updated. -/
theorem second_run_silent_iff {E : Env σ} {config : Bytes} {R : BodyReader} {zone : σ → Zone}
    (hservice : DnsService E (mainConfig config) R zone)
    (hdel : ReadsDeletes R (mainConfig config))
    (hweb : ∀ r st st', r.action = none → (E.perform r st).1.body = (E.perform r st').1.body)
    (ifs : List Ifaddrs) (w : World σ)
    (hmod : ∀ t text, confirmed E config ifs w t = some text →
      ReadsModify R (mainConfig config) text)
    (hfirst : AllSucceed E config ifs w)
    (hsecond : AllSucceed E config ifs (main E config ifs w).2.session.world) :
    let w' := (main E config ifs w).2.session.world
    (∀ r ∈ mainSent E config ifs w', r.action ≠ some (bytes "DeleteRecord")) ∧
      zone (main E config ifs w').2.session.world.net = zone w'.net ∧
      ((((∀ r ∈ mainSent E config ifs w', r.action ≠ some (bytes "ModifyRecord")) ∧
          ChangesValues E R zone config ifs w ∧ ChangesValues E R zone config ifs w')) ↔
        ∀ t, ¬ Updatable E config ifs w (zone w.net) t) := by
  intro w'
  obtain ⟨L, hL, hfam, hF⟩ := hfirst.listing hservice
  have hafter := inFamily_main_iff hservice hdel hmod hfirst hfam hF hL
  have hsingle := single_main hservice hdel hmod hfirst hfam hF hL
  refine ⟨fun r hr => not_delete_of_single hservice hsecond hsingle hr,
    zone_main_again hservice hdel hmod hfirst hfam hF hL hweb hsecond, ?_⟩
  -- the first run empties no family and fills none, and the addresses are confirmed again
  have hupdatable : ∀ t, Updatable E config ifs w' (zone w'.net) t ↔
      Updatable E config ifs w (zone w.net) t := by
    intro t
    rw [updatable_iff, updatable_iff, confirmed_again hweb w' t]
    refine and_congr_right fun _ => ?_
    constructor
    · rintro ⟨id, hid⟩
      obtain ⟨p, hp, rfl⟩ := (hafter t id).mp hid
      exact ⟨p.1, hL.inFamily_iff.mpr ⟨p, List.mem_of_mem_head? hp, rfl⟩⟩
    · rintro ⟨id, hid⟩
      obtain ⟨p, hp, -⟩ := hL.inFamily_iff.mp hid
      obtain ⟨q, hq⟩ := exists_head_of_mem hp
      exact ⟨q.1, (hafter t q.1).mpr ⟨q, hq, rfl⟩⟩
  constructor
  · -- a family that can be updated is updated again
    rintro ⟨hsilent, -⟩ t ht
    obtain ⟨r, hr, hmodify⟩ := modify_of_updatable hservice hsecond ((hupdatable t).mpr ht)
    exact hsilent r hr hmodify
  · intro hnone
    have hnone' : ∀ t, ¬ Updatable E config ifs w' (zone w'.net) t :=
      fun t h => hnone t ((hupdatable t).mp h)
    have hmodify : ∀ r ∈ mainSent E config ifs w, r.action ≠ some (bytes "ModifyRecord") :=
      fun r hr => not_modify_of_not_updatable hservice hfirst hnone hr
    have hmodify' : ∀ r ∈ mainSent E config ifs w', r.action ≠ some (bytes "ModifyRecord") :=
      fun r hr => not_modify_of_not_updatable hservice hsecond hnone' hr
    exact ⟨hmodify', fun r hr haction => absurd haction (hmodify r hr),
      fun r hr haction => absurd haction (hmodify' r hr)⟩

theorem SampleZone.perform_steady (r : Request) (s s' : SampleZone) (h : r.action = none) :
    ((Env.fixed perform).perform r s).1.body = ((Env.fixed perform).perform r s').1.body := by
  have hcheck : ∀ s, (Env.fixed perform).perform r s = (⟨true, bytes "8.8.8.8\n"⟩, s) := by
    intro s
    show perform r s = _
    unfold perform
    rw [h]
    simp
  rw [hcheck, hcheck]

/-- A host with the address that is already set: the second run sends it again. -/
theorem second_run_modifies :
    let E := Env.fixed SampleZone.perform
    let config := bytes "domain_name=example.com\n"
    let ifs : List Ifaddrs := [⟨some (.inet 0x08080808)⟩]
    let w : World SampleZone := ⟨⟨.old, true⟩, [], 0⟩
    let w' := (main E config ifs w).2.session.world
    (DnsService E (mainConfig config) jsonReader SampleZone.zone ∧
        ReadsDeletes jsonReader (mainConfig config) ∧
        (∀ t text, confirmed E config ifs w t = some text →
          ReadsModify jsonReader (mainConfig config) text) ∧
        (∀ r s s', r.action = none → (E.perform r s).1.body = (E.perform r s').1.body) ∧
        AllSucceed E config ifs w ∧ AllSucceed E config ifs w') ∧
      SampleZone.zone w'.net 7 = some ⟨key "@", key "A", key "8.8.8.8"⟩ ∧
      ∃ r ∈ mainSent E config ifs w', r.action = some (bytes "ModifyRecord") ∧
        r.postFields.bind jsonReader.modifyArgs = some ⟨7, key "A", key "8.8.8.8"⟩ := by
  intro E config ifs w w'
  have hplain : (mainConfig config).Plain := ⟨by decide +kernel, by decide +kernel⟩
  have hfirst : AllSucceed E config ifs w := by
    unfold AllSucceed
    decide +kernel
  have hsecond : AllSucceed E config ifs w' := by
    unfold AllSucceed
    decide +kernel
  exact ⟨⟨SampleZone.dnsService (by decide +kernel), jsonReader_readsDeletes hplain,
    fun t text htext => jsonReader_readsModify hplain (plain_confirmed htext),
    SampleZone.perform_steady, hfirst, hsecond⟩, by decide +kernel, by decide +kernel⟩

/-- The sample service where the IP check answers with an IPv6 address. -/
def SampleZone.performIpv6 (r : Request) (s : SampleZone) : Transfer × SampleZone :=
  if r.action = none then (⟨true, bytes "2001:db8::1\n"⟩, s) else perform r s

theorem SampleZone.dnsService_ipv6 {g : Config} (hsub : g.domainSubname = []) :
    DnsService (Env.fixed performIpv6) g jsonReader zone := by
  have h := dnsService hsub
  have hsome : ∀ r s, r.action ≠ none →
      (Env.fixed performIpv6).perform r s = (Env.fixed perform).perform r s :=
    fun r s hr => if_neg hr
  have hnone : ∀ r s, r.action = none →
      (Env.fixed performIpv6).perform r s = (⟨true, bytes "2001:db8::1\n"⟩, s) :=
    fun r s hr => if_pos hr
  refine ⟨h.ids, fun r s hok => ?_, fun r s hok => ?_, fun r s hr hok => ?_, fun r s hr hok => ?_⟩
  · by_cases hr : r.action = none
    · rw [hnone r s hr] at hok
      cases hok
    · rw [hsome r s hr] at hok ⊢
      exact h.rejects r s hok
  · by_cases hr : r.action = none
    · rw [hnone r s hr, change_of_not_mutates (by unfold Request.Mutates; rw [hr]; decide)]
      rfl
    · rw [hsome r s hr] at hok ⊢
      exact h.accepts r s hok
  · have hne : r.action ≠ none := by rw [hr]; exact Option.some_ne_none _
    rw [hsome r s hne] at hok ⊢
    exact h.lists r s hr hok
  · have hne : r.action ≠ none := by rw [hr]; exact Option.some_ne_none _
    rw [hsome r s hne] at hok ⊢
    exact h.domains r s hr hok

/-- On a host with a confirmed IPv6 address, the zone having A records only, both
runs are silent but for the deletion of the first. -/
theorem second_run_silent_without_record :
    let E := Env.fixed SampleZone.performIpv6
    let config := bytes "domain_name=example.com\n"
    let ifs : List Ifaddrs := [⟨some (.inet6 0x20010DB8000000000000000000000001)⟩]
    let w : World SampleZone := ⟨⟨.old, true⟩, [], 0⟩
    let w' := (main E config ifs w).2.session.world
    confirmed E config ifs w .classIpv6 = some (bytes "2001:db8::1") ∧
      w'.net = ⟨.old, false⟩ ∧
      (∀ r ∈ mainSent E config ifs w', r.action ≠ some (bytes "DeleteRecord")) ∧
      (∀ r ∈ mainSent E config ifs w', r.action ≠ some (bytes "ModifyRecord")) ∧
      SampleZone.zone (main E config ifs w').2.session.world.net = SampleZone.zone w'.net := by
  intro E config ifs w w'
  have hplain : (mainConfig config).Plain := ⟨by decide +kernel, by decide +kernel⟩
  have hfirst : AllSucceed E config ifs w := by
    unfold AllSucceed
    decide +kernel
  have hsecond : AllSucceed E config ifs w' := by
    unfold AllSucceed
    decide +kernel
  have hipv4 : confirmed E config ifs w .classIpv4 = none := by decide +kernel
  have hmod : ∀ t text, confirmed E config ifs w t = some text →
      ReadsModify jsonReader (mainConfig config) text :=
    fun t text htext => jsonReader_readsModify hplain (plain_confirmed htext)
  have hnot : ∀ t, ¬ Updatable E config ifs w (SampleZone.zone w.net) t := by
    intro t ht
    obtain ⟨⟨text, htext⟩, id, hid⟩ := updatable_iff.mp ht
    cases t with
    | classIpv4 =>
      rw [hipv4] at htext
      cases htext
    | classIpv6 =>
      obtain ⟨e, he, -, htype⟩ := hid
      have hA : e.type = key "A" := by
        unfold SampleZone.zone at he
        split_ifs at he
        all_goals
          cases he
          rfl
      rw [hA] at htype
      exact absurd htype (by decide)
  have hweb : ∀ r s s', r.action = none →
      (E.perform r s).1.body = (E.perform r s').1.body := by
    intro r s s' hr
    show (SampleZone.performIpv6 r s).1.body = (SampleZone.performIpv6 r s').1.body
    unfold SampleZone.performIpv6
    rw [if_pos hr, if_pos hr]
  have hservice : DnsService E (mainConfig config) jsonReader SampleZone.zone :=
    SampleZone.dnsService_ipv6 (by decide +kernel)
  have hipv6 : confirmed E config ifs w .classIpv6 = some (bytes "2001:db8::1") := by
    decide +kernel
  have hnet : w'.net = ⟨.old, false⟩ := by decide +kernel
  -- the values are not needed any more, and must not be computed below
  clear_value E config ifs w
  obtain ⟨hdelete, hzone, hiff⟩ := second_run_silent_iff hservice
    (jsonReader_readsDeletes hplain) hweb ifs w hmod hfirst hsecond
  exact ⟨hipv6, hnet, hdelete, (hiff.mpr hnot).1, hzone⟩

end DdnsCloudTencent
