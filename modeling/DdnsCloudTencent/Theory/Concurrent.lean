import DdnsCloudTencent.Theory.SecondRun
import DdnsCloudTencent.Theory.Steps

/-!
# Several hosts at once

Any number of hosts run the program against one zone, in any interleaving of
their requests and with any failures. None of them knows what the others do
between its listing and its deletions. What saves the records is the order of
the listings: as long as that is one order, every host keeps the same record,
and the earliest one of a family (`Earliest`) is in nobody's deletions.

- `ZoneInv`: how a zone comes from the one before the runs;
- `PartyInv`: what a host may still do, in terms of the zone before the runs, so
  that the steps of the others cannot break it;
- `concurrent_keeps`: the earliest record of a family is never deleted, nothing
  but the families is touched, and their values are addresses of the hosts;
- `concurrent_agree`: after one run whose requests are all granted, each family
  has its earliest record and no other, whatever the other hosts have done.
-/

namespace DdnsCloudTencent

open Cxx Keyed Parties

variable {σ : Type}

/-! ## The order of the listings -/

/-- The listings give the records in one order. -/
def ListsInOrder (E : Env σ) (g : Config) (zone : σ → Zone) (rank : Nat → Nat) : Prop :=
  ∀ r st L, r.action = some (bytes "DescribeRecordFilterList") → (E.perform r st).1.ok = true →
    Lists E.machine g (zone st) (E.perform r st).1.body L →
      L.Pairwise fun p q => rank p.1 < rank q.1

/-- The record of a family that comes first in this order. -/
structure Earliest (g : Config) (rank : Nat → Nat) (z : Zone) (t : Dnspod.IpType) (id : Nat) :
    Prop where
  mem : InFamily g z t id
  le : ∀ id', InFamily g z t id' → rank id ≤ rank id'

theorem exists_earliest (g : Config) (rank : Nat → Nat) {z : Zone} {t : Dnspod.IpType}
    (h : ∃ id, InFamily g z t id) : ∃ id, Earliest g rank z t id := by
  obtain ⟨id, hid, hmin⟩ := (measure rank).wf.has_min {id | InFamily g z t id} h
  exact ⟨id, hid, fun id' hid' => not_lt.mp (hmin id' hid')⟩

theorem InFamily.ne_none {g : Config} {z : Zone} {t : Dnspod.IpType} {id : Nat}
    (h : InFamily g z t id) : z id ≠ none := by
  obtain ⟨e, he, -⟩ := h
  rw [he]
  exact Option.some_ne_none e

theorem inFamily_congr {g : Config} {z z' : Zone} {t : Dnspod.IpType} {id : Nat}
    (h : z' id = z id) : InFamily g z' t id ↔ InFamily g z t id := by
  rw [InFamily, InFamily, h]

/-! ## The zone -/

/-- The zone `z` comes from `z₀` by changes of its families: records outside of
them are as they were, none appears, the earliest are still there, and a value is
the one at the start or among `Own`. -/
structure ZoneInv (g : Config) (rank : Nat → Nat) (Own : Dnspod.IpType → Bytes → Prop)
    (z₀ z : Zone) : Prop where
  other : ∀ id, (∀ t, ¬ InFamily g z₀ t id) → z id = z₀ id
  typed : ∀ t id, InFamily g z₀ t id → z id ≠ none → InFamily g z t id
  first : ∀ t id, Earliest g rank z₀ t id → z id ≠ none
  value : ∀ t id e, z id = some e → OfFamily g t e →
    z₀ id = some e ∨ ∃ text, Own t text ∧ e.value = cStr text

/-- The changes that keep it. -/
inductive Harmless (g : Config) (rank : Nat → Nat) (Own : Dnspod.IpType → Bytes → Prop)
    (z₀ : Zone) : Change Nat DnsRecord → Prop where
  | erase (t : Dnspod.IpType) (id : Nat) (hmem : InFamily g z₀ t id)
      (hlater : ¬ Earliest g rank z₀ t id) : Harmless g rank Own z₀ (.erase id)
  | edit (t : Dnspod.IpType) (id : Nat) (text : Bytes) (hmem : InFamily g z₀ t id)
      (hown : Own t text) :
      Harmless g rank Own z₀ (.edit id fun e => e.modified (key t.typeText) (cStr text))

section ZoneInv

variable {g : Config} {rank : Nat → Nat} {Own : Dnspod.IpType → Bytes → Prop} {z₀ z : Zone}

theorem zoneInv_refl : ZoneInv g rank Own z₀ z₀ where
  other _ _ := rfl
  typed _ _ h _ := h
  first _ _ h := h.mem.ne_none
  value _ _ _ he _ := .inl he

/-- What is of a family was so at the start. -/
theorem ZoneInv.inFamily (h : ZoneInv g rank Own z₀ z) {t : Dnspod.IpType} {id : Nat}
    (hid : InFamily g z t id) : InFamily g z₀ t id := by
  by_cases hfam : ∃ t', InFamily g z₀ t' id
  · obtain ⟨t', ht'⟩ := hfam
    obtain rfl := (h.typed t' id ht' hid.ne_none).unique hid
    exact ht'
  · have hother := h.other id fun t' ht' => hfam ⟨t', ht'⟩
    exact (inFamily_congr hother).mp hid

theorem ZoneInv.erase (h : ZoneInv g rank Own z₀ z) {t : Dnspod.IpType} {id : Nat}
    (hmem : InFamily g z₀ t id) (hlater : ¬ Earliest g rank z₀ t id) :
    ZoneInv g rank Own z₀ (Change.apply z (.erase id)) := by
  have hgone : Change.apply z (.erase id) id = none := by
    refine (Change.apply_key z (.erase id)).trans ?_
    cases z (Change.erase id : Change Nat DnsRecord).key <;> rfl
  have hother : ∀ id', id' ≠ id → Change.apply z (.erase id) id' = z id' :=
    fun id' hid => Change.apply_of_ne z (Ne.symm hid)
  constructor
  · intro id' hid'
    have hne : id' ≠ id := by
      rintro rfl
      exact hid' t hmem
    rw [hother id' hne]
    exact h.other id' hid'
  · intro t' id' hid' hne
    by_cases heq : id' = id
    · subst heq
      exact absurd hgone hne
    · rw [hother id' heq] at hne
      exact (inFamily_congr (hother id' heq)).mpr (h.typed t' id' hid' hne)
  · intro t' id' hfirst
    have hne : id' ≠ id := by
      rintro rfl
      obtain rfl := hfirst.mem.unique hmem
      exact hlater hfirst
    rw [hother id' hne]
    exact h.first t' id' hfirst
  · intro t' id' e he hof
    by_cases heq : id' = id
    · subst heq
      rw [hgone] at he
      cases he
    · rw [hother id' heq] at he
      exact h.value t' id' e he hof

theorem ZoneInv.edit (h : ZoneInv g rank Own z₀ z) {t : Dnspod.IpType} {id : Nat} {text : Bytes}
    (hmem : InFamily g z₀ t id) (hown : Own t text) :
    ZoneInv g rank Own z₀
      (Change.apply z (.edit id fun e => e.modified (key t.typeText) (cStr text))) := by
  have hsame := sameFamilies_edit (h.typed t id hmem) (cStr text)
  have hother : ∀ id', id' ≠ id →
      Change.apply z (.edit id fun e => e.modified (key t.typeText) (cStr text)) id' = z id' :=
    fun id' hid => Change.apply_of_ne z (Ne.symm hid)
  constructor
  · intro id' hid'
    have hne : id' ≠ id := by
      rintro rfl
      exact hid' t hmem
    rw [hother id' hne]
    exact h.other id' hid'
  · intro t' id' hid' hne
    have hne' : z id' ≠ none := fun hnone => hne ((hsame.none_iff id').mpr hnone)
    exact (hsame.family_iff t' id').mpr (h.typed t' id' hid' hne')
  · exact fun t' id' hfirst hnone => h.first t' id' hfirst ((hsame.none_iff id').mp hnone)
  · intro t' id' e he hof
    by_cases heq : id' = id
    · -- the record that is edited has the new address
      subst heq
      have hkey : (Change.edit id' fun e => e.modified (key t.typeText) (cStr text) :
        Change Nat DnsRecord).key = id' := rfl
      obtain ⟨e₀, -, hact⟩ := Option.bind_eq_some_iff.mp
        ((Change.apply_key z (.edit id' _)).symm.trans he)
      obtain rfl := Option.some.inj hact
      have ht : key t.typeText = key t'.typeText := hof.2
      obtain rfl : t = t' := by
        cases t <;> cases t' <;> first | rfl | exact absurd ht (by decide)
      exact .inr ⟨text, hown, rfl⟩
    · rw [hother id' heq] at he
      exact h.value t' id' e he hof

theorem ZoneInv.apply (h : ZoneInv g rank Own z₀ z) {c : Change Nat DnsRecord}
    (hc : Harmless g rank Own z₀ c) : ZoneInv g rank Own z₀ (c.apply z) := by
  cases hc with
  | erase t id hmem hlater => exact h.erase hmem hlater
  | edit t id text hmem hown => exact h.edit hmem hown

theorem ZoneInv.foldl (h : ZoneInv g rank Own z₀ z) {cs : List (Change Nat DnsRecord)}
    (hcs : ∀ c ∈ cs, Harmless g rank Own z₀ c) :
    ZoneInv g rank Own z₀ (cs.foldl Change.apply z) := by
  induction cs generalizing z with
  | nil => exact h
  | cons c cs ih =>
    exact ih (h.apply (hcs c List.mem_cons_self)) fun c' hc' => hcs c' (List.mem_cons_of_mem c hc')

end ZoneInv

/-! ## The hosts -/

/-- `main` has not come to the record listing. -/
def Phase.Unlisted : Phase → Prop
  | .checkIpv4 | .checkIpv6 | .domainList | .recordListFilter => True
  | _ => False

/-- The records whose deletions are still to come. -/
def Phase.pending : Phase → List RecordListT
  | .recordDelete it => it
  | _ => []

/-- The requests of the next step, if there are any, are granted. -/
def Client.StepGranted (E : Env σ) (c : Client) (w : World σ) : Prop :=
  ∀ q ∈ Client.next E c w, ∀ p ∈ exchanges E (q.2.sent.drop w.sent.length) w.net, p.2 = true

theorem Client.StepGranted.of_sends {E : Env σ} {c c' : Client} {w w' : World σ}
    (h : c.StepGranted E w) (hnext : Client.next E c w = some (c', w')) {reqs : List Request}
    (hsends : Sends E w w' reqs) : ∀ p ∈ exchanges E reqs w.net, p.2 = true := by
  have hstep := h (c', w') (Option.mem_def.mpr hnext)
  rwa [hsends.sent, List.drop_left] at hstep

/-- What a host may still do. Nothing in it depends on what the others have done
to the zone since. -/
structure PartyInv (M : Machine) (g : Config) (rank : Nat → Nat) (ifs : List Ifaddrs) (z₀ : Zone)
    (c : Client) : Prop where
  fileConfig : c.fileConfig = g
  own : ∀ t, (c.ip t).validIpwan = true →
    publicText M t.addrType ifs = some (c.ip t).ipLocal
  running : ∀ f, c.phase ≠ .ended (.error f)
  unlisted : c.phase.Unlisted → ∀ t, c.dnspod.record t = []
  type : ∀ t, ∀ r ∈ c.dnspod.record t, r.type = bytes t.typeText
  small : ∀ t, ∀ r ∈ c.dnspod.record t, r.id.toNat < 2 ^ 32
  mem : ∀ t, ∀ r ∈ c.dnspod.record t, InFamily g z₀ t r.id.toNat
  pending : ∀ r ∈ c.phase.pending, ∃ t, r ∈ c.dnspod.record t ∧ ¬ Earliest g rank z₀ t r.id.toNat

theorem Phase.Next.unlisted {d : Dnspod} {p p' : Phase} (h : Phase.Next d p p')
    (hp' : p'.Unlisted) : p.Unlisted := by
  cases h <;> trivial

theorem Phase.Next.pending {d : Dnspod} {p p' : Phase} (h : Phase.Next d p p')
    (hp : p ≠ .recordListFilter) : ∀ r ∈ p'.pending, r ∈ p.pending := by
  cases h with
  | recordListFilter => exact absurd rfl hp
  | recordDelete it rest => exact fun r hr => List.mem_cons_of_mem it hr
  | _ => exact fun r hr => absurd hr List.not_mem_nil

theorem Phase.Next.listed {d : Dnspod} {p p' : Phase} (h : Phase.Next d p p')
    (hp : p = .recordListFilter) (hrunning : ∀ f, p' ≠ .ended (.error f)) :
    p' = .recordDelete (surplus d) := by
  subst hp
  cases h with
  | recordListFilter => rfl
  | recordListFilterFault f => exact absurd rfl (hrunning f)

theorem Phase.Next.not_unlisted {d : Dnspod} {p p' : Phase} (h : Phase.Next d p p')
    (hp : p ≠ .recordListFilter) (hrunning : ∀ f, p' ≠ .ended (.error f))
    (hp' : ¬ p'.Unlisted) : ¬ p.Unlisted := by
  cases h with
  | recordListFilter => exact absurd rfl hp
  | domainListFault f => exact absurd rfl (hrunning f)
  | recordListFilterFault f => exact absurd rfl (hrunning f)
  | checkIpv4 => exact absurd trivial hp'
  | checkIpv6 => exact absurd trivial hp'
  | domainList => exact absurd trivial hp'
  | _ => exact id

/-- A pending record is still pending after a step, or it is the one whose
deletion is sent. -/
theorem Phase.Next.pending_or {d : Dnspod} {p p' : Phase} (h : Phase.Next d p p')
    {r : RecordListT} (hr : r ∈ p.pending) :
    r ∈ p'.pending ∨ ∃ rest, p = .recordDelete (r :: rest) := by
  cases h with
  | recordDelete it rest =>
    rcases List.mem_cons.mp hr with rfl | hr
    · exact .inr ⟨rest, rfl⟩
    · exact .inl hr
  | _ => exact absurd hr List.not_mem_nil

section Party

variable {E : Env σ} {g : Config} {R : BodyReader} {zone : σ → Zone} {rank : Nat → Nat}
  {Own : Dnspod.IpType → Bytes → Prop} {ifs : List Ifaddrs} {z₀ : Zone} {c c' : Client}
  {w w' : World σ}

theorem partyInv_start {config : Bytes} (hg : mainConfig config = g) :
    PartyInv E.machine g rank ifs z₀ (Client.start E config ifs) where
  fileConfig := hg
  own t hvalid := by
    have hfresh : (Ipaddress.new t.addrType (mainConfig config).domainFull).validIpwan = false :=
      rfl
    have hip : (Client.start E config ifs).ip t =
        (Ipaddress.new t.addrType (mainConfig config).domainFull).checkLocalIp E.machine ifs := by
      cases t <;> rfl
    have hclass : (Ipaddress.new t.addrType (mainConfig config).domainFull).classTypeIp =
      t.addrType := rfl
    rw [hip, checkLocalIp_of_invalid _ _ hfresh, hclass] at hvalid ⊢
    cases hpublic : publicText E.machine t.addrType ifs with
    | none =>
      rw [hpublic] at hvalid
      cases hvalid
    | some text => rfl
  running _ h := nomatch h
  unlisted _ t := by cases t <;> rfl
  type t r hr := by cases t <;> exact absurd hr List.not_mem_nil
  small t r hr := by cases t <;> exact absurd hr List.not_mem_nil
  mem t r hr := by cases t <;> exact absurd hr List.not_mem_nil
  pending _ hr := absurd hr List.not_mem_nil

theorem PartyInv.confirmed (h : PartyInv E.machine g rank ifs z₀ c) {t : Dnspod.IpType}
    {text : Bytes} (htext : (c.ip t).confirmed = some text) :
    publicText E.machine t.addrType ifs = some text := by
  obtain ⟨hvalid, -, rfl⟩ := ((c.ip t).confirmed_eq_some_iff text).mp htext
  exact h.own t hvalid

/-- What a host asks for is harmless. -/
theorem PartyInv.harmless (h : PartyInv E.machine g rank ifs z₀ c) (hdel : ReadsDeletes R g)
    (hmod : ∀ t text, Own t text → ReadsModify R g text)
    (hown : ∀ t text, publicText E.machine t.addrType ifs = some text → Own t text)
    {r : Request} (hr : c.Asks r) {ch : Change Nat DnsRecord} (hch : r.change R = some ch) :
    Harmless g rank Own z₀ ch := by
  cases hr with
  | quiet hquiet =>
    rw [change_of_not_mutates hquiet] at hch
    cases hch
  | delete it rest hphase his =>
    obtain ⟨t, hmem, hlater⟩ := h.pending it (by
      rw [hphase]
      exact List.mem_cons_self)
    have hread := hdel it.id.toUInt32
    rw [UInt64.toNat_toUInt32, Nat.mod_eq_of_lt (h.small t it hmem)] at hread
    rw [h.fileConfig] at his
    rw [his.change_delete hread] at hch
    obtain rfl := Option.some.inj hch
    exact .erase t _ (h.mem t it hmem) hlater
  | modify t text record0 htext hmem his =>
    have hOwn := hown t text (h.confirmed htext)
    rw [h.fileConfig] at his
    rw [his.change_modify (hmod t text hOwn t record0 (h.type t record0 hmem))] at hch
    obtain rfl := Option.some.inj hch
    exact .edit t _ text (h.mem t record0 hmem) hOwn

/-- **A step of a host** keeps the zone in order, and makes no record appear. -/
theorem PartyInv.zoneInv (h : PartyInv E.machine g rank ifs z₀ c)
    (hservice : DnsService E g R zone) (hdel : ReadsDeletes R g)
    (hmod : ∀ t text, Own t text → ReadsModify R g text)
    (hown : ∀ t text, publicText E.machine t.addrType ifs = some text → Own t text)
    (hz : ZoneInv g rank Own z₀ (zone w.net)) (hnext : Client.next E c w = some (c', w')) :
    ZoneInv g rank Own z₀ (zone w'.net) ∧ ∀ id, zone w.net id = none → zone w'.net id = none := by
  obtain ⟨reqs, hsends, -, hasks⟩ := next_sends hnext
  rw [hsends.zone_eq hservice]
  refine ⟨hz.foldl fun ch hch => ?_, fun id hid => foldl_apply_of_none hid⟩
  obtain ⟨r, hr, hchange⟩ := mem_accepted.mp hch
  exact h.harmless hdel hmod hown (hasks r (mem_of_mem_exchanges hr)) hchange

/-- A listed record that is not the first of its family is not the earliest one. -/
theorem Lists.not_earliest {st : σ} {body : Bytes} {L : List (Nat × DnsRecord)}
    (hL : Lists E.machine g (zone st) body L)
    (hsorted : L.Pairwise fun p q => rank p.1 < rank q.1)
    (hz : ZoneInv g rank Own z₀ (zone st)) {t : Dnspod.IpType} {p : Nat × DnsRecord}
    (hp : p ∈ (family g t L).tail) : ¬ Earliest g rank z₀ t p.1 := by
  intro hfirst
  obtain ⟨q, rest, hcons⟩ :=
    List.exists_cons_of_ne_nil (List.ne_nil_of_mem (List.mem_of_mem_tail hp))
  have hq : q ∈ family g t L := hcons ▸ List.mem_cons_self
  obtain ⟨hqL, hof⟩ := mem_family.mp hq
  have hin : InFamily g (zone st) t q.1 := ⟨q.2, ((hL.mem_iff q.1 q.2).mp hqL).1, hof⟩
  -- the first one comes earlier, and was of the family at the start
  have hlt : rank q.1 < rank p.1 := by
    have hpair := hsorted.sublist (List.filter_sublist (p := fun p => OfFamily g t p.2))
    rw [show L.filter (fun p => OfFamily g t p.2) = q :: rest from hcons] at hpair
    rw [hcons] at hp
    exact (List.pairwise_cons.mp hpair).1 p hp
  exact absurd (hfirst.le q.1 (hz.inFamily hin)) (not_le.mpr hlt)

/-- What a host knows from its listing: some records of each family in the order
of the listings. -/
structure Listed (g : Config) (rank : Nat → Nat) (z₀ z : Zone) (d : Dnspod)
    (F : Dnspod.IpType → List (Nat × DnsRecord)) : Prop where
  families : Families g z F
  record : ∀ t, d.record t = (F t).map (cached t)
  later : ∀ t, ∀ p ∈ (F t).tail, ¬ Earliest g rank z₀ t p.1

/-- The listing of a host, which finds every record of the families where it is
granted. -/
theorem PartyInv.list (h : PartyInv E.machine g rank ifs z₀ c) (hservice : DnsService E g R zone)
    (horder : ListsInOrder E g zone rank) (hz : ZoneInv g rank Own z₀ (zone w.net))
    (hphase : c.phase = .recordListFilter) (hnext : Client.next E c w = some (c', w')) :
    ∃ F, Listed g rank z₀ (zone w.net) c'.dnspod F ∧
      (c.StepGranted E w → ∀ t id, InFamily g (zone w.net) t id → ∃ p ∈ F t, p.1 = id) := by
  have hempty := h.unlisted (by rw [hphase]; trivial)
  obtain ⟨phase, g', ipV4, ipV6, d⟩ := c
  obtain rfl : g' = g := h.fileConfig
  obtain rfl : phase = .recordListFilter := hphase
  have hgranted : Client.StepGranted E _ w → ∀ reqs, Sends E w w' reqs →
      ∀ p ∈ exchanges E reqs w.net, p.2 = true := fun hstep _ hsends => hstep.of_sends hnext hsends
  cases hnext
  obtain ⟨-, ⟨hok, -, hrec⟩ | ⟨hok, -, L, hL, hrec⟩⟩ :=
    listFilter_spec hservice (⟨d, w⟩ : Session σ)
  · refine ⟨fun _ => [], ⟨families_nil _ _, fun t => (hrec t).trans (hempty t),
      fun t p hp => absurd hp List.not_mem_nil⟩, fun hstep => ?_⟩
    have hok' := hgranted hstep _ (sends_decodeInto (sends_signedPost E _ _ ⟨d, w⟩)) _
      List.mem_cons_self
    exact absurd hok' (by rw [hok]; exact Bool.false_ne_true)
  · have hsorted := horder _ w.net L
      (action_signedRequest E (by decide : 0 ∉ bytes "DescribeRecordFilterList") _ _) hok hL
    refine ⟨fun t => family _ t L, ⟨hL.families (hservice.ids w.net), fun t => (hrec t).trans ?_,
      fun t p hp => hL.not_earliest hsorted hz hp⟩, fun _ t id hid => hL.inFamily_iff.mp hid⟩
    show d.record t ++ _ = _
    rw [show d.record t = [] from hempty t, List.nil_append]

/-- No step faults. -/
theorem PartyInv.running_step (h : PartyInv E.machine g rank ifs z₀ c)
    (hservice : DnsService E g R zone) (hnext : Client.next E c w = some (c', w')) (f : Fault) :
    c'.phase ≠ .ended (.error f) := by
  have hphase := next_phase hnext
  obtain ⟨phase, g', ipV4, ipV6, d⟩ := c
  obtain rfl : g' = g := h.fileConfig
  intro hfault
  rw [hfault] at hphase
  cases hphase with
  | domainListFault f =>
    obtain ⟨⟨b, hb⟩, -⟩ := domainList_spec hservice (⟨d, w⟩ : Session σ)
    cases hnext
    rw [hb] at hfault
    cases hfault
  | recordListFilterFault f =>
    obtain ⟨-, ⟨-, hb, -⟩ | ⟨-, hb, -⟩⟩ := listFilter_spec hservice (⟨d, w⟩ : Session σ)
    all_goals
      cases hnext
      rw [hb] at hfault
      cases hfault

/-- **A step of a host** keeps its invariant. -/
theorem PartyInv.step (h : PartyInv E.machine g rank ifs z₀ c) (hservice : DnsService E g R zone)
    (horder : ListsInOrder E g zone rank) (hz : ZoneInv g rank Own z₀ (zone w.net))
    (hnext : Client.next E c w = some (c', w')) : PartyInv E.machine g rank ifs z₀ c' := by
  have hframe := next_frame hnext
  have hphase := next_phase hnext
  have hconfig : c'.fileConfig = g := hframe.fileConfig.trans h.fileConfig
  have hown : ∀ t, (c'.ip t).validIpwan = true →
      publicText E.machine t.addrType ifs = some (c'.ip t).ipLocal := by
    intro t hvalid
    rw [hframe.ipLocal]
    exact h.own t (by rwa [hframe.validIpwan] at hvalid)
  have hrunning := h.running_step hservice hnext
  by_cases hlist : c.phase = .recordListFilter
  · -- the vectors are filled, and the surplus is what comes later
    obtain ⟨F, hF, -⟩ := h.list hservice horder hz hlist hnext
    have hpending := hphase.listed hlist hrunning
    have hcached : ∀ t, ∀ r ∈ c'.dnspod.record t, ∃ p ∈ F t, r = cached t p ∧ r.id.toNat = p.1 := by
      intro t r hr
      rw [hF.record t] at hr
      obtain ⟨p, hp, rfl⟩ := List.mem_map.mp hr
      exact ⟨p, hp, rfl, cached_id (hF.families.small t p hp)⟩
    refine ⟨hconfig, hown, hrunning, fun hun => ?_, fun t r hr => ?_, fun t r hr => ?_,
      fun t r hr => ?_, fun r hr => ?_⟩
    · rw [hpending] at hun
      exact hun.elim
    · obtain ⟨p, -, rfl, -⟩ := hcached t r hr
      rfl
    · obtain ⟨p, hp, -, hid⟩ := hcached t r hr
      rw [hid]
      exact hF.families.small t p hp
    · obtain ⟨p, hp, -, hid⟩ := hcached t r hr
      rw [hid]
      exact hz.inFamily ⟨p.2, hF.families.sound t p hp⟩
    · rw [hpending] at hr
      obtain ⟨t, ht⟩ := mem_surplus.mp hr
      refine ⟨t, List.mem_of_mem_tail ht, ?_⟩
      rw [hF.record t, ← List.map_tail] at ht
      obtain ⟨p, hp, rfl⟩ := List.mem_map.mp ht
      rw [cached_id (hF.families.small t p (List.mem_of_mem_tail hp))]
      exact hF.later t p hp
  · -- everywhere else the vectors stay, and no deletion is added
    have hrec := next_record hnext hlist
    have hunlisted : c'.phase.Unlisted → c.phase.Unlisted := hphase.unlisted
    have hpending : ∀ r ∈ c'.phase.pending, r ∈ c.phase.pending := hphase.pending hlist
    refine ⟨hconfig, hown, hrunning, fun hun t => (hrec t).trans (h.unlisted (hunlisted hun) t),
      fun t r hr => h.type t r (hrec t ▸ hr), fun t r hr => h.small t r (hrec t ▸ hr),
      fun t r hr => h.mem t r (hrec t ▸ hr), fun r hr => ?_⟩
    obtain ⟨t, ht, hlater⟩ := h.pending r (hpending r hr)
    exact ⟨t, (hrec t).symm ▸ ht, hlater⟩

/-! ### A host whose requests are granted -/

/-- From its listing on, a host knows the records of the families: the ones that
it keeps and those that it is still to delete. -/
def Client.Knows (c : Client) (g : Config) (z : Zone) : Prop :=
  ¬ c.phase.Unlisted → ∀ t id, InFamily g z t id →
    (∃ r, (c.dnspod.record t).head? = some r ∧ r.id.toNat = id) ∨
      ∃ r ∈ c.phase.pending, r.id.toNat = id

theorem Client.Knows.mono {z z' : Zone} (h : c.Knows g z)
    (hz : ∀ t id, InFamily g z' t id → InFamily g z t id) : c.Knows g z' :=
  fun hlisted t id hid => h hlisted t id (hz t id hid)

/-- A deletion that is granted. -/
theorem PartyInv.deleted (h : PartyInv E.machine g rank ifs z₀ c)
    (hservice : DnsService E g R zone) (hdel : ReadsDeletes R g) {it : RecordListT}
    {rest : List RecordListT} (hphase : c.phase = .recordDelete (it :: rest))
    (hgranted : c.StepGranted E w) (hnext : Client.next E c w = some (c', w')) :
    zone w'.net it.id.toNat = none := by
  obtain ⟨t, hmem, -⟩ := h.pending it (by
    rw [hphase]
    exact List.mem_cons_self)
  have hread := hdel it.id.toUInt32
  rw [UInt64.toNat_toUInt32, Nat.mod_eq_of_lt (h.small t it hmem)] at hread
  obtain ⟨r, hsends, his⟩ := next_recordDelete hphase hnext
  rw [h.fileConfig] at his
  have hok := hgranted.of_sends hnext hsends _ List.mem_cons_self
  rw [hsends.net, List.foldl_cons, List.foldl_nil, hservice.accepts r w.net hok,
    his.change_delete hread]
  refine (Change.apply_key (zone w.net) (.erase it.id.toNat)).trans ?_
  cases zone w.net (Change.erase it.id.toNat : Change Nat DnsRecord).key <;> rfl

/-- **A granted step** of a host leaves it with what it knows. -/
theorem Client.Knows.step (hknows : c.Knows g (zone w.net))
    (h : PartyInv E.machine g rank ifs z₀ c) (hservice : DnsService E g R zone)
    (hdel : ReadsDeletes R g) (horder : ListsInOrder E g zone rank)
    (hz : ZoneInv g rank Own z₀ (zone w.net)) (hgranted : c.StepGranted E w)
    (hshrinks : ∀ t id, InFamily g (zone w'.net) t id → InFamily g (zone w.net) t id)
    (hnext : Client.next E c w = some (c', w')) : c'.Knows g (zone w'.net) := by
  have hphase := next_phase hnext
  have hrunning := h.running_step hservice hnext
  intro hlisted t id hid
  by_cases hlist : c.phase = .recordListFilter
  · -- every record of the family is listed
    obtain ⟨F, hF, hall⟩ := h.list hservice horder hz hlist hnext
    obtain ⟨p, hp, rfl⟩ := hall hgranted t id (hshrinks t id hid)
    have hid' := cached_id (t := t) (hF.families.small t p hp)
    have hmem : cached t p ∈ c'.dnspod.record t := by
      rw [hF.record t]
      exact List.mem_map_of_mem hp
    rcases head_or_tail_of_mem hmem with hfirst | htail
    · exact .inl ⟨_, hfirst, hid'⟩
    · refine .inr ⟨_, ?_, hid'⟩
      rw [hphase.listed hlist hrunning]
      exact mem_surplus.mpr ⟨t, htail⟩
  · rw [next_record hnext hlist]
    rcases hknows (hphase.not_unlisted hlist hrunning hlisted) t id (hshrinks t id hid) with
      hfirst | ⟨r, hr, rfl⟩
    · exact .inl hfirst
    · -- what is not pending any more has just been deleted
      rcases hphase.pending_or hr with hr | ⟨rest, hcons⟩
      · exact .inr ⟨r, hr, rfl⟩
      · exact absurd (h.deleted hservice hdel hcons hgranted hnext) hid.ne_none

/-- At its end it knows one record of each family at most, which is the earliest
one. -/
theorem Client.Knows.earliest {z : Zone} (hknows : c.Knows g z) (hz : ZoneInv g rank Own z₀ z)
    (hend : c.phase = .ended (.ok ())) {t : Dnspod.IpType} {id : Nat} :
    InFamily g z t id ↔ Earliest g rank z₀ t id := by
  have hlisted : ¬ c.phase.Unlisted := by rw [hend]; exact fun h => h
  have hhead : ∀ id', InFamily g z t id' →
      ∃ r, (c.dnspod.record t).head? = some r ∧ r.id.toNat = id' := by
    intro id' hid'
    refine (hknows hlisted t id' hid').resolve_right ?_
    rintro ⟨r, hr, -⟩
    rw [hend] at hr
    exact absurd hr List.not_mem_nil
  have hfirst : ∀ id', Earliest g rank z₀ t id' → InFamily g z t id' :=
    fun id' h => hz.typed t id' h.mem (hz.first t id' h)
  refine ⟨fun hid => ?_, hfirst id⟩
  obtain ⟨id', hid'⟩ := exists_earliest g rank ⟨id, hz.inFamily hid⟩
  obtain ⟨r, hr, rfl⟩ := hhead id hid
  obtain ⟨r', hr', rfl⟩ := hhead id' (hfirst id' hid')
  rw [hr] at hr'
  obtain rfl := Option.some.inj hr'
  exact hid'

end Party

/-! ## Any schedule -/

/-- The hosts before their runs, each with its configuration file and its
interfaces. -/
def fleet {I : Type} (E : Env σ) (config : I → Bytes) (ifs : I → List Ifaddrs) (w : World σ) :
    System I Client (World σ) :=
  ⟨fun i => Client.start E (config i) (ifs i), w⟩

section Fleet

variable {I : Type} {E : Env σ} {g : Config} {zone : σ → Zone}
  {rank : Nat → Nat}

/-- The addresses that a run can set: those of the hosts. -/
def OwnText (E : Env σ) (ifs : I → List Ifaddrs) (t : Dnspod.IpType) (text : Bytes) : Prop :=
  ∃ i, publicText E.machine t.addrType (ifs i) = some text

theorem plain_publicText {M : Machine} {t : Ipaddress.IpType} {ifs : List Ifaddrs} {text : Bytes}
    (h : publicText M t ifs = some text) : Json.PlainText text ∧ 0 ∉ text := by
  obtain ⟨a, -, rfl⟩ := Option.map_eq_some_iff.mp h
  have hchars : ∀ c ∈ Inet.textChars, 32 ≤ c ∧ c ≠ 34 ∧ c ≠ 92 := by decide
  have hplain : Json.PlainText (t.inetNtop a) :=
    fun c hc => hchars c (Ipaddress.IpType.mem_textChars hc)
  exact ⟨hplain, noNul_of_plain hplain⟩

/-- A host, in the world that it shares with the others. -/
structure HostInv (E : Env σ) (g : Config) (zone : σ → Zone) (rank : Nat → Nat)
    (ifs : I → List Ifaddrs) (z₀ : Zone) (i : I) (c : Client) (w : World σ) : Prop where
  party : PartyInv E.machine g rank (ifs i) z₀ c
  zoneInv : ZoneInv g rank (OwnText E ifs) z₀ (zone w.net)

/-- What a step does to the zone. -/
structure Effect (E : Env σ) (g : Config) (zone : σ → Zone) (rank : Nat → Nat)
    (ifs : I → List Ifaddrs) (z₀ : Zone) (w w' : World σ) : Prop where
  zoneInv : ZoneInv g rank (OwnText E ifs) z₀ (zone w'.net)
  none_of_none : ∀ id, zone w.net id = none → zone w'.net id = none

variable {ifs : I → List Ifaddrs} {z₀ : Zone} {i : I} {c c' : Client} {w w' : World σ}

theorem Effect.inFamily (h : Effect E g zone rank ifs z₀ w w')
    (hz : ZoneInv g rank (OwnText E ifs) z₀ (zone w.net)) {t : Dnspod.IpType} {id : Nat}
    (hid : InFamily g (zone w'.net) t id) : InFamily g (zone w.net) t id :=
  hz.typed t id (h.zoneInv.inFamily hid) fun hnone => hid.ne_none (h.none_of_none id hnone)

theorem HostInv.step (hplain : g.Plain) (hservice : DnsService E g jsonReader zone)
    (horder : ListsInOrder E g zone rank) (h : HostInv E g zone rank ifs z₀ i c w)
    (hnext : Client.next E c w = some (c', w')) :
    HostInv E g zone rank ifs z₀ i c' w' ∧ Effect E g zone rank ifs z₀ w w' := by
  have hmod : ∀ t text, OwnText E ifs t text → ReadsModify jsonReader g text := by
    rintro t text ⟨j, hj⟩
    exact jsonReader_readsModify hplain (plain_publicText hj).1
  obtain ⟨hz, hnone⟩ := h.party.zoneInv hservice (jsonReader_readsDeletes hplain) hmod
    (fun t text htext => ⟨i, htext⟩) h.zoneInv hnext
  exact ⟨⟨h.party.step hservice horder h.zoneInv hnext, hz⟩, hz, hnone⟩

theorem hostInv_start (config : I → Bytes) (ifs : I → List Ifaddrs)
    (hg : ∀ i, mainConfig (config i) = g) (w : World σ) (i : I) :
    HostInv E g zone rank ifs (zone w.net) i ((fleet E config ifs w).own i) w :=
  ⟨partyInv_start (hg i), zoneInv_refl⟩

variable [DecidableEq I]

theorem hostInv_run (hplain : g.Plain) (hservice : DnsService E g jsonReader zone)
    (horder : ListsInOrder E g zone rank) (config : I → Bytes) (ifs : I → List Ifaddrs)
    (hg : ∀ i, mainConfig (config i) = g) (w : World σ) (is : List I) :
    let s := (fleet E config ifs w).run (Client.next E) is
    (∀ i f, (s.own i).phase ≠ .ended (.error f)) ∧
      ZoneInv g rank (OwnText E ifs) (zone w.net) (zone s.world.net) := by
  intro s
  have hinv : ∀ i, HostInv E g zone rank ifs (zone w.net) i (s.own i) s.world :=
    run_of_stable (R := Effect E g zone rank ifs (zone w.net))
      (fun i c w c' w' h hnext => h.step hplain hservice horder hnext)
      (fun i c w w' h heffect => ⟨h.party, heffect.zoneInv⟩) (hostInv_start config ifs hg w) is
  refine ⟨fun i => (hinv i).party.running, ?_⟩
  cases is with
  | nil => exact zoneInv_refl
  | cons i is => exact (hinv i).zoneInv

/-- **Hosts that run at the same time keep the records.** In any interleaving of
any number of runs, with any failures, no run faults; records of other names and
types are untouched and none appears; of each family the record that the listings
give first is there; and every value is the one at the start or the public
address of a host. -/
theorem concurrent_keeps (hplain : g.Plain) (hservice : DnsService E g jsonReader zone)
    (horder : ListsInOrder E g zone rank) (config : I → Bytes) (ifs : I → List Ifaddrs)
    (hg : ∀ i, mainConfig (config i) = g) (w : World σ) (is : List I) :
    let s := (fleet E config ifs w).run (Client.next E) is
    let z := zone w.net
    let z' := zone s.world.net
    (∀ i f, (s.own i).phase ≠ .ended (.error f)) ∧
      KeepsFamilies g z z' ∧
      (∀ t id, Earliest g rank z t id → InFamily g z' t id) ∧
      (∀ t id, InFamily g z' t id → InFamily g z t id) ∧
      (∀ id, (∀ t, ¬ InFamily g z t id) → z' id = z id) ∧
      ∀ t id e, z' id = some e → OfFamily g t e →
        z id = some e ∨ ∃ i, publicText E.machine t.addrType (ifs i) = some e.value.toBytes := by
  intro s z z'
  obtain ⟨hrunning, hz⟩ := hostInv_run hplain hservice horder config ifs hg w is
  have hfirst : ∀ t id, Earliest g rank z t id → InFamily g z' t id :=
    fun t id h => hz.typed t id h.mem (hz.first t id h)
  refine ⟨hrunning, fun t ht => ?_, hfirst, fun t id => hz.inFamily, hz.other,
    fun t id e he hof => ?_⟩
  · obtain ⟨id, hid⟩ := exists_earliest g rank ht
    exact ⟨id, hfirst t id hid⟩
  · rcases hz.value t id e he hof with hsame | ⟨text, ⟨i, htext⟩, hvalue⟩
    · exact .inl hsame
    · refine .inr ⟨i, ?_⟩
      rw [hvalue, cStr_toBytes_of_noNul (plain_publicText htext).2]
      exact htext

/-- **They agree.** After a run whose requests are all granted, each family has
its earliest record and no other, wherever the steps of the other hosts fell and
whatever became of their requests. -/
theorem concurrent_agree (hplain : g.Plain) (hservice : DnsService E g jsonReader zone)
    (horder : ListsInOrder E g zone rank) (config : I → Bytes) (ifs : I → List Ifaddrs)
    (hg : ∀ i, mainConfig (config i) = g) (w : World σ) (is : List I) (i : I)
    (hgranted : Runs.Guarded (System.step (Client.next E))
      (fun s j => j = i → (s.own j).StepGranted E s.world) (fleet E config ifs w) is)
    (hend : (((fleet E config ifs w).run (Client.next E) is).own i).phase = .ended (.ok ()))
    (t : Dnspod.IpType) (id : Nat) :
    InFamily g (zone ((fleet E config ifs w).run (Client.next E) is).world.net) t id ↔
      Earliest g rank (zone w.net) t id := by
  have hinv := run_of_guarded (R := Effect E g zone rank ifs (zone w.net))
    (P := fun j c w' => HostInv E g zone rank ifs (zone w.net) j c w' ∧
      (j = i → c.Knows g (zone w'.net)))
    (G := fun j c w' => j = i → c.StepGranted E w')
    (fun j c w c' w' h hgranted hnext => ?_)
    (fun j c w w' h heffect => ⟨⟨h.1.party, heffect.zoneInv⟩, fun hj => (h.2 hj).mono
      fun t id => heffect.inFamily h.1.zoneInv⟩)
    (fun j => ⟨hostInv_start config ifs hg w j, fun _ hlisted => absurd trivial hlisted⟩) hgranted i
  · exact (hinv.2 rfl).earliest hinv.1.zoneInv hend
  · obtain ⟨hhost, heffect⟩ := h.1.step hplain hservice horder hnext
    refine ⟨⟨hhost, fun hj => ?_⟩, heffect⟩
    exact (h.2 hj).step h.1.party hservice (jsonReader_readsDeletes hplain) horder h.1.zoneInv
      (hgranted hj) (fun t id => heffect.inFamily h.1.zoneInv) hnext

end Fleet

/-! ## Two hosts over the sample service -/

theorem Describes.unique {x : CJson} {id id' : Nat} {e e' : DnsRecord} (h : Describes x id e)
    (h' : Describes x id' e') : (id, e) = (id', e') := by
  obtain ⟨name, type, value⟩ := e
  obtain ⟨name', type', value'⟩ := e'
  obtain ⟨i, hid⟩ := h.recordId
  obtain ⟨i', hid'⟩ := h'.recordId
  have hname := h.name.symm.trans h'.name
  have htype := h.type.symm.trans h'.type
  have hvalue := h.value.symm.trans h'.value
  have hnumber := hid.symm.trans hid'
  simp only [Option.some.injEq, CJson.string.injEq, CJson.number.injEq, Double.ofNat,
    Double.finite.injEq, Nat.cast_inj] at hname htype hvalue hnumber
  rw [hname, htype, hvalue, hnumber.2]

theorem eq_of_describes {items : List CJson} {L L' : List (Nat × DnsRecord)}
    (h : List.Forall₂ (fun x p => Describes x p.1 p.2) items L)
    (h' : List.Forall₂ (fun x p => Describes x p.1 p.2) items L') : L = L' := by
  induction h generalizing L' with
  | nil =>
    cases h'
    rfl
  | cons hx _ ih =>
    cases h' with
    | cons hx' hrest' => exact congrArg₂ List.cons (hx.unique hx') (ih hrest')

namespace SampleZone

theorem perform_listing {r : Request} {s : SampleZone}
    (haction : r.action = some (bytes "DescribeRecordFilterList")) :
    (Env.fixed perform).perform r s = (⟨true, s.body⟩, s) := by
  have hdelete : ¬ r.action = some (bytes "DeleteRecord") := by rw [haction]; decide
  have hmodify : ¬ r.action = some (bytes "ModifyRecord") := by rw [haction]; decide
  exact (if_neg hdelete).trans ((if_neg hmodify).trans (if_pos haction))

/-- The service lists record 7 before record 8. -/
theorem listsInOrder (g : Config) : ListsInOrder (Env.fixed perform) g zone id := by
  intro r s L haction _ hL
  obtain ⟨items, hitems, hL⟩ := hL.items
  obtain ⟨items', hitems', hrecords⟩ := replyList_body s
  rw [perform_listing haction, hitems'] at hitems
  cases hitems
  rw [eq_of_describes hL hrecords]
  obtain ⟨a, b⟩ := s
  cases a <;> cases b <;> decide

theorem earliest_seven (s : SampleZone) (h : s.seven = .old) {g : Config}
    (hg : recordTarget g = key "@") : Earliest g id s.zone .classIpv4 7 where
  mem := ⟨⟨key "@", key "A", key "192.0.2.1"⟩, by simp [zone, record7, h], hg.symm, rfl⟩
  le id' := by
    rintro ⟨e, he, -⟩
    show 7 ≤ id'
    unfold zone at he
    split at he
    · omega
    · split at he
      · omega
      · cases he

end SampleZone

/-- Two hosts take turns, one with a public address and one without. -/
theorem concurrent_keeps_sample :
    let E := Env.fixed SampleZone.perform
    let config := bytes "domain_name=example.com\n"
    let ifs : Bool → List Ifaddrs := fun b => if b then [⟨some (.inet 0x08080808)⟩] else []
    let w : World SampleZone := ⟨⟨.old, true⟩, [], 0⟩
    let is := (List.replicate 12 [true, false]).flatten
    InFamily (mainConfig config)
      (SampleZone.zone ((fleet E (fun _ => config) ifs w).run (Client.next E) is).world.net)
      .classIpv4 7 := by
  intro E config ifs w is
  have hplain : (mainConfig config).Plain := ⟨by decide +kernel, by decide +kernel⟩
  have hservice : DnsService E (mainConfig config) jsonReader SampleZone.zone :=
    SampleZone.dnsService (by decide +kernel)
  obtain ⟨-, -, hfirst, -⟩ := concurrent_keeps hplain hservice
    (SampleZone.listsInOrder (mainConfig config)) (fun _ => config) ifs (fun _ => rfl) w is
  exact hfirst _ _ (SampleZone.earliest_seven w.net rfl (by decide +kernel))

/-- And the one without an address deletes the surplus record. -/
theorem concurrent_agree_sample :
    let E := Env.fixed SampleZone.perform
    let config := bytes "domain_name=example.com\n"
    let ifs : Bool → List Ifaddrs := fun b => if b then [⟨some (.inet 0x08080808)⟩] else []
    let w : World SampleZone := ⟨⟨.old, true⟩, [], 0⟩
    let is := (List.replicate 12 [true, false]).flatten
    ¬ InFamily (mainConfig config)
        (SampleZone.zone ((fleet E (fun _ => config) ifs w).run (Client.next E) is).world.net)
        .classIpv4 8 := by
  intro E config ifs w is h
  have hplain : (mainConfig config).Plain := ⟨by decide +kernel, by decide +kernel⟩
  have hservice : DnsService E (mainConfig config) jsonReader SampleZone.zone :=
    SampleZone.dnsService (by decide +kernel)
  have hfirst : Earliest (mainConfig config) id (SampleZone.zone w.net) .classIpv4 8 :=
    (concurrent_agree hplain hservice (SampleZone.listsInOrder (mainConfig config))
      (fun _ => config) ifs (fun _ => rfl) w is false
      (by unfold Client.StepGranted; decide +kernel) (by decide +kernel) .classIpv4 8).mp h
  have hseven := SampleZone.earliest_seven w.net rfl (g := mainConfig config) (by decide +kernel)
  exact absurd (hfirst.le 7 hseven.mem) (by decide)

/-! ### Listings in no order

The order of the listings is needed: where two listings give the records in two
orders, two hosts delete each other's. -/

/-- The sample service with every other listing turned around. -/
def SampleZone.performTurning (r : Request) (s : SampleZone × Bool) :
    Transfer × (SampleZone × Bool) :=
  if r.action = some (bytes "DescribeRecordFilterList") then
    (⟨true, bytes "\x7b\"Response\":\x7b\"RecordList\":[" ++ List.intercalate (bytes ",")
      ((if s.2 then s.1.records.reverse else s.1.records).map item) ++ bytes "]\x7d\x7d"⟩,
      (s.1, !s.2))
  else
    let q := perform r s.1
    (q.1, (q.2, s.2))

theorem SampleZone.replyList_turned (s : SampleZone) :
    (match replyList (Env.fixed perform).machine "RecordList"
        (bytes "\x7b\"Response\":\x7b\"RecordList\":[" ++ List.intercalate (bytes ",")
          (s.records.reverse.map item) ++ bytes "]\x7d\x7d") with
      | .ok (some items) =>
        decide (List.Forall₂ (fun x p => Describes x p.1 p.2) items s.records.reverse)
      | _ => false) = true := by
  obtain ⟨a, b⟩ := s
  cases a <;> cases b <;> decide +kernel

theorem SampleZone.dnsService_turning {g : Config} (hsub : g.domainSubname = []) :
    DnsService (Env.fixed performTurning) g jsonReader (fun s => s.1.zone) where
  ids s := (dnsService hsub).ids s.1
  rejects r s h := by
    have hperform : (Env.fixed performTurning).perform r s = performTurning r s := rfl
    rw [hperform] at h ⊢
    unfold performTurning at h ⊢
    split at h
    · cases h
    · next hlist =>
      rw [if_neg hlist]
      exact (dnsService hsub).rejects r s.1 h
  accepts r s h := by
    have hperform : (Env.fixed performTurning).perform r s = performTurning r s := rfl
    rw [hperform] at h ⊢
    unfold performTurning at h ⊢
    split at h
    · next hlist =>
      have hquiet : ¬ r.Mutates := by
        rintro (hmut | hmut)
        · rw [hlist] at hmut
          exact absurd hmut (by decide)
        · rw [hlist] at hmut
          exact absurd hmut (by decide)
      rw [if_pos hlist, change_of_not_mutates hquiet]
      rfl
    · next hlist =>
      rw [if_neg hlist]
      exact (dnsService hsub).accepts r s.1 h
  lists r s haction _ := by
    have hperform : (Env.fixed performTurning).perform r s = performTurning r s := rfl
    rw [hperform, performTurning, if_pos haction]
    obtain ⟨s, turned⟩ := s
    cases turned with
    | false =>
      have hlists := (dnsService hsub).lists r s haction (perform_ok r s (.inl haction))
      rwa [perform_listing haction] at hlists
    | true =>
      have hitems := replyList_turned s
      refine ⟨s.records.reverse, ?_, fun id e => ?_, ?_⟩
      · obtain ⟨a, b⟩ := s
        cases a <;> cases b <;> decide
      · rw [List.mem_reverse, mem_records_iff]
        exact ⟨fun h => ⟨h, .inl hsub⟩, And.left⟩
      · split at hitems
        · next items heq => exact ⟨items, heq, by simpa using hitems⟩
        · cases hitems
  domains r s haction hok := by
    have hlist : ¬ r.action = some (bytes "DescribeRecordFilterList") := by rw [haction]; decide
    have hperform : (Env.fixed performTurning).perform r s = performTurning r s := rfl
    rw [hperform, performTurning, if_neg hlist] at hok ⊢
    exact (dnsService hsub).domains r s.1 haction hok

/-- Two hosts, each of which lists before the other deletes: no record is left. -/
theorem unordered_hosts_delete_all :
    let E := Env.fixed SampleZone.performTurning
    let config := bytes "domain_name=example.com\n"
    let w : World (SampleZone × Bool) := ⟨(⟨.old, true⟩, false), [], 0⟩
    let is := (List.replicate 8 [true, false]).flatten
    DnsService E (mainConfig config) jsonReader (fun s => s.1.zone) ∧
      InFamily (mainConfig config) (SampleZone.zone w.net.1) .classIpv4 7 ∧
      ((fleet E (fun _ => config) (fun _ => []) w).run (Client.next E) is).world.net.1 =
        ⟨.gone, false⟩ := by
  intro E config w is
  exact ⟨SampleZone.dnsService_turning (by decide +kernel), ⟨_, rfl, by decide +kernel, rfl⟩,
    by decide +kernel⟩

end DdnsCloudTencent
