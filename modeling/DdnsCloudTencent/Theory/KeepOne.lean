import DdnsCloudTencent.Theory.Operations
import DdnsCloudTencent.Theory.ZoneUpdate

/-!
# Does a family keep a record, whatever the order of operations?

The delete loops keep the first entry of each vector, and a listing appends to
the vectors. After two listings every record is cached twice, so that the entry
kept is also deleted.

- `CacheInv`: how the vectors and the zone belong together after some listings,
  stated over any vectors and any zone;
- `CacheInv.listed`, `.removed`, `.modified`: each operation restores it, and
  `CacheInv.not_keeps`: deletions after two listings leave a family empty;
- `deleteRemainOne_spec`, `recordModify_spec`: what the calls of the client do;
- `keep_one_iff`: in a run every family keeps a record exactly if no deletion
  follows two listings, or there was no record of a family to begin with.
-/

namespace DdnsCloudTencent

open Cxx Keyed

variable {σ : Type}

/-! ## Vectors and zones -/

/-- The record of an id is of a family. -/
def InFamily (g : Config) (z : Zone) (t : Dnspod.IpType) (id : Nat) : Prop :=
  ∃ e, z id = some e ∧ OfFamily g t e

/-- A family that had a record still has one. -/
def KeepsFamilies (g : Config) (z₀ z : Zone) : Prop :=
  ∀ t, (∃ id, InFamily g z₀ t id) → ∃ id, InFamily g z t id

theorem InFamily.unique {g : Config} {z : Zone} {t t' : Dnspod.IpType} {id : Nat}
    (h : InFamily g z t id) (h' : InFamily g z t' id) : t = t' := by
  obtain ⟨e, hz, he⟩ := h
  obtain ⟨e', hz', he'⟩ := h'
  rw [hz] at hz'
  obtain rfl := Option.some.inj hz'
  exact he.unique he'

/-- A change of some records that leaves their families alone. -/
structure SameFamilies (g : Config) (z z' : Zone) : Prop where
  none_iff : ∀ id, z' id = none ↔ z id = none
  family_iff : ∀ t id, InFamily g z' t id ↔ InFamily g z t id

theorem SameFamilies.refl (g : Config) (z : Zone) : SameFamilies g z z :=
  ⟨fun _ => Iff.rfl, fun _ _ => Iff.rfl⟩

/-- Setting the address of a record of a family leaves it there. -/
theorem sameFamilies_edit {g : Config} {z : Zone} {t : Dnspod.IpType} {id : Nat}
    (htyped : z id ≠ none → InFamily g z t id) (value : CStr) :
    SameFamilies g z
      (Change.apply z (.edit id fun e => e.modified (key t.typeText) value)) := by
  have hat : Change.apply z (.edit id fun e => e.modified (key t.typeText) value) id =
      (z id).map fun e => e.modified (key t.typeText) value := by
    refine (Change.apply_key z _).trans ?_
    show (z id).bind _ = _
    cases z id <;> rfl
  have hother : ∀ id', id' ≠ id →
      Change.apply z (.edit id fun e => e.modified (key t.typeText) value) id' = z id' :=
    fun id' hid => Change.apply_of_ne z (Ne.symm hid)
  -- at the record itself, and at any other
  constructor
  · intro id'
    by_cases hid : id' = id
    · rw [hid, hat, Option.map_eq_none_iff]
    · rw [hother id' hid]
  · intro t' id'
    by_cases hid : id' = id
    · subst hid
      cases hz : z id' with
      | none => simp [InFamily, hat, hz]
      | some e =>
        have hin : InFamily g z t id' := htyped (by rw [hz]; exact Option.some_ne_none e)
        have hof : OfFamily g t e := by
          obtain ⟨e', he', hof⟩ := hin
          rw [hz] at he'
          exact Option.some.inj he' ▸ hof
        have hin' : InFamily g
            (Change.apply z (.edit id' fun e => e.modified (key t.typeText) value)) t id' :=
          ⟨_, by rw [hat, hz]; rfl, hof.modified value⟩
        exact ⟨fun h => hin'.unique h ▸ hin, fun h => hin.unique h ▸ hin'⟩
    · simp only [InFamily, hother id' hid]

/-- The records of the entries behind the first of each vector are deleted. -/
structure Removes (rec : Dnspod.IpType → List RecordListT) (z z' : Zone) : Prop where
  gone : ∀ t, ∀ r ∈ (rec t).tail, z' r.id.toNat = none
  stays : ∀ id, (∀ t, ∀ r ∈ (rec t).tail, r.id.toNat ≠ id) → z' id = z id

theorem Removes.of_some {rec : Dnspod.IpType → List RecordListT} {z z' : Zone}
    (h : Removes rec z z') {id : Nat} {e : DnsRecord} (he : z' id = some e) :
    (∀ t, ∀ r ∈ (rec t).tail, r.id.toNat ≠ id) ∧ z id = some e := by
  have hne : ∀ t, ∀ r ∈ (rec t).tail, r.id.toNat ≠ id := by
    rintro t r hr rfl
    rw [h.gone t r hr] at he
    cases he
  exact ⟨hne, (h.stays id hne).symm.trans he⟩

/-- The vectors `rec` and the zone after `n` listings, `z₀` being the zone at the
start. -/
structure CacheInv (g : Config) (z₀ : Zone) (n : Nat) (z : Zone)
    (rec : Dnspod.IpType → List RecordListT) : Prop where
  keeps : KeepsFamilies g z₀ z
  type : ∀ t, ∀ r ∈ rec t, r.type = bytes t.typeText
  small : ∀ t, ∀ r ∈ rec t, r.id.toNat < 2 ^ 32
  typed : ∀ t, ∀ r ∈ rec t, z r.id.toNat ≠ none → InFamily g z t r.id.toNat
  unlisted : n = 0 → ∀ t, rec t = []
  listed : 1 ≤ n → ∀ t id, InFamily g z t id → rec t ≠ []
  once : n = 1 → ∀ t r rest, rec t = r :: rest →
    z r.id.toNat ≠ none ∧ ∀ r' ∈ rest, r'.id.toNat ≠ r.id.toNat
  again : 2 ≤ n → ∀ t id, InFamily g z t id → ∃ r ∈ (rec t).tail, r.id.toNat = id

theorem cacheInv_start (g : Config) (z : Zone) : CacheInv g z 0 z fun _ => [] where
  keeps _ h := h
  type _ _ hr := absurd hr List.not_mem_nil
  small _ _ hr := absurd hr List.not_mem_nil
  typed _ _ hr := absurd hr List.not_mem_nil
  unlisted _ _ := rfl
  listed h := absurd h (by decide)
  once h := absurd h (by decide)
  again h := absurd h (by decide)

section CacheInv

variable {g : Config} {z₀ z z' : Zone} {n : Nat} {rec : Dnspod.IpType → List RecordListT}

/-- The entries that a listing appends are those of the records of a family. -/
theorem Lists.exists_cached_iff {M : Machine} {body : Bytes} {L : List (Nat × DnsRecord)}
    (hL : Lists M g z body L) (hz : ∀ id e, z id = some e → id < 2 ^ 32) {t : Dnspod.IpType}
    {id : Nat} :
    (∃ r ∈ (family g t L).map (cached t), r.id.toNat = id) ↔ InFamily g z t id := by
  have hfam := hL.families hz
  constructor
  · rintro ⟨r, hr, rfl⟩
    obtain ⟨p, hp, rfl⟩ := List.mem_map.mp hr
    rw [cached_id (hfam.small t p hp)]
    exact ⟨p.2, hfam.sound t p hp⟩
  · rintro ⟨e, he, hof⟩
    have hmem : (id, e) ∈ family g t L :=
      mem_family.mpr ⟨(hL.mem_iff id e).mpr ⟨he, hof.inScope⟩, hof⟩
    exact ⟨_, List.mem_map_of_mem hmem, cached_id (hfam.small t _ hmem)⟩

/-- A listing appends an entry for every record of a family. -/
theorem CacheInv.list (h : CacheInv g z₀ n z rec) {M : Machine} {body : Bytes}
    {L : List (Nat × DnsRecord)} (hL : Lists M g z body L)
    (hz : ∀ id e, z id = some e → id < 2 ^ 32) :
    CacheInv g z₀ (n + 1) z fun t => rec t ++ (family g t L).map (cached t) where
  keeps := h.keeps
  type t r hr := by
    rcases List.mem_append.mp hr with hr | hr
    · exact h.type t r hr
    · obtain ⟨p, -, rfl⟩ := List.mem_map.mp hr
      rfl
  small t r hr := by
    rcases List.mem_append.mp hr with hr | hr
    · exact h.small t r hr
    · obtain ⟨e, he, -⟩ := (hL.exists_cached_iff hz).mp ⟨r, hr, rfl⟩
      exact hz _ e he
  typed t r hr hne := by
    rcases List.mem_append.mp hr with hr | hr
    · exact h.typed t r hr hne
    · exact (hL.exists_cached_iff hz).mp ⟨r, hr, rfl⟩
  unlisted h0 := absurd h0 (Nat.succ_ne_zero n)
  listed _ t id hin := by
    obtain ⟨r, hr, -⟩ := (hL.exists_cached_iff hz).mpr hin
    exact List.append_ne_nil_of_right_ne_nil _ (List.ne_nil_of_mem hr)
  once hn t r rest hrec := by
    -- this is the first listing, so the vector is what it appends
    have hfam := hL.families hz
    rw [h.unlisted (Nat.succ.inj hn) t, List.nil_append] at hrec
    obtain ⟨p, ps, hps, rfl, rfl⟩ := List.map_eq_cons_iff.mp hrec
    have hp : p ∈ family g t L := hps ▸ List.mem_cons_self
    rw [cached_id (hfam.small t p hp), (hfam.sound t p hp).1]
    refine ⟨Option.some_ne_none _, fun r' hr' => ?_⟩
    obtain ⟨q, hq, rfl⟩ := List.mem_map.mp hr'
    rw [cached_id (hfam.small t q (hps ▸ List.mem_cons_of_mem p hq))]
    exact (hfam.head_ne hps hq).symm
  again hn t id hin := by
    -- the vector was not empty, so the new entries stand behind its first one
    obtain ⟨r, hr, hrid⟩ := (hL.exists_cached_iff hz).mpr hin
    have hne : rec t ≠ [] := h.listed (Nat.le_of_succ_le_succ hn) t id hin
    rw [List.tail_append_of_ne_nil hne]
    exact ⟨r, List.mem_append_right _ hr, hrid⟩

/-- A modification touches neither the vectors nor the families. -/
theorem CacheInv.modify (h : CacheInv g z₀ n z rec) (hsame : SameFamilies g z z') :
    CacheInv g z₀ n z' rec where
  keeps t ht := by
    obtain ⟨id, hid⟩ := h.keeps t ht
    exact ⟨id, (hsame.family_iff t id).mpr hid⟩
  type := h.type
  small := h.small
  typed t r hr hne := (hsame.family_iff t _).mpr
    (h.typed t r hr fun hnone => hne ((hsame.none_iff _).mpr hnone))
  unlisted := h.unlisted
  listed hn t id hin := h.listed hn t id ((hsame.family_iff t id).mp hin)
  once hn t r rest hrec := by
    obtain ⟨hne, hrest⟩ := h.once hn t r rest hrec
    exact ⟨fun hnone => hne ((hsame.none_iff _).mp hnone), hrest⟩
  again hn t id hin := h.again hn t id ((hsame.family_iff t id).mp hin)

theorem Removes.inFamily (hrem : Removes rec z z') {t : Dnspod.IpType} {id : Nat}
    (h : InFamily g z' t id) : InFamily g z t id := by
  obtain ⟨e, he, hof⟩ := h
  exact ⟨e, (hrem.of_some he).2, hof⟩

/-- After one listing the first entry of a vector is in no deletion. -/
theorem CacheInv.head_stays (h : CacheInv g z₀ 1 z rec) (hrem : Removes rec z z')
    {t : Dnspod.IpType} {r : RecordListT} {rest : List RecordListT} (hrec : rec t = r :: rest) :
    z' r.id.toNat = z r.id.toNat := by
  obtain ⟨hne, hrest⟩ := h.once rfl t r rest hrec
  refine hrem.stays _ fun t' r' hr' heq => ?_
  have hin := h.typed t r (hrec ▸ List.mem_cons_self) hne
  have hin' := h.typed t' r' (List.mem_of_mem_tail hr') (heq ▸ hne)
  rw [heq] at hin'
  obtain rfl := hin.unique hin'
  rw [hrec] at hr'
  exact hrest r' hr' heq

/-- The deletions keep a record of each family, as long as there was one listing
at most. -/
theorem CacheInv.keeps_of_removes (h : CacheInv g z₀ n z rec) (hrem : Removes rec z z')
    (hn : n ≤ 1) : KeepsFamilies g z₀ z' := by
  intro t ht
  obtain ⟨id, hid⟩ := h.keeps t ht
  rcases Nat.le_one_iff_eq_zero_or_eq_one.mp hn with rfl | rfl
  · obtain ⟨e, he, hof⟩ := hid
    refine ⟨id, e, ?_, hof⟩
    rw [hrem.stays id fun t r hr => by
      rw [h.unlisted rfl t] at hr
      exact absurd hr List.not_mem_nil]
    exact he
  · obtain ⟨r, rest, hrec⟩ := List.exists_cons_of_ne_nil (h.listed le_rfl t id hid)
    obtain ⟨e, he, hof⟩ := h.typed t r (hrec ▸ List.mem_cons_self) (h.once rfl t r rest hrec).1
    exact ⟨r.id.toNat, e, (h.head_stays hrem hrec).trans he, hof⟩

theorem CacheInv.remove (h : CacheInv g z₀ n z rec) (hrem : Removes rec z z')
    (hkeeps : KeepsFamilies g z₀ z') : CacheInv g z₀ n z' rec where
  keeps := hkeeps
  type := h.type
  small := h.small
  typed t r hr hne := by
    obtain ⟨e, he⟩ := Option.ne_none_iff_exists'.mp hne
    obtain ⟨-, hz⟩ := hrem.of_some he
    obtain ⟨e', he', hof⟩ := h.typed t r hr (by rw [hz]; exact Option.some_ne_none e)
    rw [hz] at he'
    obtain rfl := Option.some.inj he'
    exact ⟨e, he, hof⟩
  unlisted := h.unlisted
  listed hn t id hin := h.listed hn t id (hrem.inFamily hin)
  once hn t r rest hrec := by
    subst hn
    obtain ⟨hne, hrest⟩ := h.once rfl t r rest hrec
    exact ⟨by rw [h.head_stays hrem hrec]; exact hne, hrest⟩
  again hn t id hin := h.again hn t id (hrem.inFamily hin)

/-- After two listings the deletions leave no record of a family. -/
theorem CacheInv.not_keeps (h : CacheInv g z₀ n z rec) (hrem : Removes rec z z') (hn : 2 ≤ n)
    {t : Dnspod.IpType} {id : Nat} (hid : InFamily g z₀ t id) : ¬ KeepsFamilies g z₀ z' := by
  intro hkeeps
  obtain ⟨id', e, he, hof⟩ := hkeeps t ⟨id, hid⟩
  obtain ⟨hne, hz⟩ := hrem.of_some he
  obtain ⟨r, hr, hrid⟩ := h.again hn t id' ⟨e, hz, hof⟩
  exact hne t r hr hrid

end CacheInv

/-! ## The calls of the client -/

section Calls

variable {E : Env σ} {g : Config} {R : BodyReader} {zone : σ → Zone}

/-- Requests that all succeed are all in the log as granted. -/
theorem mem_exchanges_of_ok {reqs : List Request}
    (hok : ∀ r ∈ reqs, ∀ st, (E.perform r st).1.ok = true) (st : σ) {r : Request} (hr : r ∈ reqs) :
    (r, true) ∈ exchanges E reqs st := by
  induction reqs generalizing st with
  | nil => exact absurd hr List.not_mem_nil
  | cons q reqs ih =>
    rcases List.mem_cons.mp hr with rfl | hr
    · rw [exchanges, hok r List.mem_cons_self]
      exact List.mem_cons_self
    · exact List.mem_cons_of_mem _ (ih (fun r hr => hok r (List.mem_cons_of_mem q hr)) _ hr)

/-- A deletion of the loops erases its record, as long as the id is of 32 bits. -/
theorem change_surplus (hdel : ReadsDeletes R g) {s : Session σ}
    (hsmall : ∀ t, ∀ r ∈ s.dnspod.record t, r.id.toNat < 2 ^ 32) {req : Request}
    {r : RecordListT} (hr : r ∈ surplus s.dnspod)
    (his : req.Is (bytes "DeleteRecord") (recordDeletePayload g.domainName r.id.toUInt32)) :
    req.change R = some (.erase r.id.toNat) := by
  obtain ⟨t, ht⟩ := mem_surplus.mp hr
  have hread := hdel r.id.toUInt32
  rw [UInt64.toNat_toUInt32, Nat.mod_eq_of_lt (hsmall t r (List.mem_of_mem_tail ht))] at hread
  exact his.change_delete hread

/-- **The delete loops**: where deletions succeed, exactly the records of the
entries behind the first ones are gone. -/
theorem deleteRemainOne_spec (hservice : DnsService E g R zone) (hdel : ReadsDeletes R g)
    (hok : ∀ r st, r.action = some (bytes "DeleteRecord") → (E.perform r st).1.ok = true)
    (s : Session σ) (hsmall : ∀ t, ∀ r ∈ s.dnspod.record t, r.id.toNat < 2 ^ 32) :
    (∀ t, (recordDeleteRemainOne E g s).dnspod.record t = s.dnspod.record t) ∧
      Removes s.dnspod.record (zone s.world.net)
        (zone (recordDeleteRemainOne E g s).world.net) := by
  refine ⟨(sameState_recordDeleteRemainOne E g s).record, ?_⟩
  obtain ⟨reqs, hsends, hreqs⟩ := sends_deleteLoop E g (surplus s.dnspod) s
  rw [← recordDeleteRemainOne_eq] at hsends
  have hzone := hsends.zone_eq hservice
  have hfrom : ∀ c ∈ accepted R (exchanges E reqs s.world.net),
      ∃ r ∈ surplus s.dnspod, c = .erase r.id.toNat := by
    intro c hc
    obtain ⟨req, hreq, hreqc⟩ := mem_accepted.mp hc
    obtain ⟨r, hr, his⟩ := exists_of_mem_forall₂ hreqs (mem_of_mem_exchanges hreq)
    rw [change_surplus hdel hsmall hr his] at hreqc
    exact ⟨r, hr, (Option.some.inj hreqc).symm⟩
  have hall : ∀ q ∈ reqs, ∀ st, (E.perform q st).1.ok = true := by
    intro q hq st
    obtain ⟨r, -, his⟩ := exists_of_mem_forall₂ hreqs hq
    exact hok q st his.action
  constructor
  · -- the deletion of the entry is among the changes, and no other names its record
    intro t r hr
    have hsurplus := mem_surplus.mpr ⟨t, hr⟩
    obtain ⟨req, hreq, his⟩ := exists_of_mem_forall₂ hreqs.flip hsurplus
    have hc := mem_accepted.mpr ⟨req, mem_exchanges_of_ok hall s.world.net hreq,
      change_surplus hdel hsmall hsurplus his⟩
    have hfold := foldl_apply_of_mem (zone s.world.net) hc (Change.idempotent_erase _)
      fun c hc hkey => by
        obtain ⟨r', -, rfl⟩ := hfrom c hc
        exact congrArg Change.erase hkey
    rw [hzone]
    refine hfold.trans ?_
    cases zone s.world.net (Change.erase r.id.toNat : Change Nat DnsRecord).key <;> rfl
  · intro id hid
    rw [hzone]
    refine foldl_apply_of_ne fun c hc => ?_
    obtain ⟨r, hr, rfl⟩ := hfrom c hc
    obtain ⟨t, ht⟩ := mem_surplus.mp hr
    exact hid t r ht

/-- **A modification** leaves the vectors and the families alone, whether or not
it succeeds. -/
theorem recordModify_spec (hservice : DnsService E g R zone) {ip : Bytes}
    (hmod : ReadsModify R g ip) (t : Dnspod.IpType) (s : Session σ)
    (htype : ∀ r ∈ s.dnspod.record t, r.type = bytes t.typeText)
    (htyped : ∀ r ∈ s.dnspod.record t, zone s.world.net r.id.toNat ≠ none →
      InFamily g (zone s.world.net) t r.id.toNat) :
    (∀ t', (dnspodRecordModify E g t ip s).2.dnspod.record t' = s.dnspod.record t') ∧
      SameFamilies g (zone s.world.net) (zone (dnspodRecordModify E g t ip s).2.world.net) := by
  rcases dnspodRecordModify_cases E g t ip s with ⟨-, heq⟩ | ⟨record0, rest, hrec, heq⟩
  · rw [heq]
    exact ⟨fun _ => rfl, SameFamilies.refl g _⟩
  · have hmem : record0 ∈ s.dnspod.record t := hrec ▸ List.mem_cons_self
    rw [heq]
    refine ⟨(sameState_signedPost E _ _ s).record, ?_⟩
    have his : (signedRequest E (bytes "ModifyRecord") (recordModifyPayload g record0 ip) s).Is
        (bytes "ModifyRecord") (recordModifyPayload g record0 ip) :=
      signedRequest_is E (by decide) _ s
    rw [signedPost_eq]
    revert his
    generalize signedRequest E (bytes "ModifyRecord") (recordModifyPayload g record0 ip) s = req
    intro his
    -- a failed request changes nothing, a granted one this record
    cases hok : (E.perform req s.world.net).1.ok with
    | false =>
      show SameFamilies g (zone s.world.net) (zone (E.perform req s.world.net).2)
      rw [(hservice.rejects req s.world.net hok).1]
      exact SameFamilies.refl g _
    | true =>
      show SameFamilies g (zone s.world.net) (zone (E.perform req s.world.net).2)
      rw [hservice.accepts req s.world.net hok,
        his.change_modify (hmod t record0 (htype record0 hmem))]
      exact sameFamilies_edit (htyped record0 hmem) (cStr ip)

end Calls

/-! ## Runs -/

/-- The calls of a run. -/
inductive CacheOperation where
  | recordListFilter
  | recordDeleteRemainOne
  | recordModify (ipType : Dnspod.IpType) (ipAddr : Bytes)

/-- The call as an operation of the client. -/
def CacheOperation.toOperation : CacheOperation → Operation
  | .recordListFilter => .recordListFilter
  | .recordDeleteRemainOne => .recordDeleteRemainOne
  | .recordModify t ip => .recordModify t ip

/-- The number of listings so far, and the client. -/
structure CacheState (σ : Type) where
  listings : Nat
  run : Except Fault Unit × Session σ

/-- One call. -/
def cacheStep (E : Env σ) (g : Config) (p : CacheState σ) (op : CacheOperation) :
    CacheState σ where
  listings := match op with
    | .recordListFilter => p.listings + 1
    | _ => p.listings
  run := callStep E g p.run op.toOperation

/-- A fresh client. -/
def cacheStart (config : Bytes) (w : World σ) : CacheState σ := ⟨0, .ok (), ⟨Dnspod.new config, w⟩⟩

section Runs

variable {E : Env σ} {g : Config} {R : BodyReader} {zone : σ → Zone} {z₀ : Zone}

/-- The invariant of a run: no call has faulted, and the vectors and the zone
belong together. -/
structure RunInv (g : Config) (zone : σ → Zone) (z₀ : Zone) (p : CacheState σ) : Prop where
  running : p.run.1 = .ok ()
  cache : CacheInv g z₀ p.listings (zone p.run.2.world.net) p.run.2.dnspod.record

/-- A deletion is safe before the second listing, or where there is no record of
a family. -/
def SafeDelete (g : Config) (z₀ : Zone) (p : CacheState σ) (op : CacheOperation) : Prop :=
  op = .recordDeleteRemainOne → p.listings ≤ 1 ∨ ∀ t id, ¬ InFamily g z₀ t id

theorem cacheStep_run (E : Env σ) (g : Config) {p : CacheState σ} (h : p.run.1 = .ok ())
    (op : CacheOperation) :
    (cacheStep E g p op).run = op.toOperation.call E g p.run.2 := by
  show callStep E g p.run op.toOperation = _
  rw [callStep, h]

theorem runInv_start (config : Bytes) (w : World σ) :
    RunInv g zone (zone w.net) (cacheStart config w) where
  running := rfl
  cache := by
    have hempty : (cacheStart config w).run.2.dnspod.record = fun _ => [] :=
      funext fun t => by cases t <;> rfl
    rw [hempty]
    exact cacheInv_start g (zone w.net)

/-- A listing, which succeeds. -/
theorem RunInv.list (hservice : DnsService E g R zone)
    (hok : ∀ r st, r.action = some (bytes "DescribeRecordFilterList") →
      (E.perform r st).1.ok = true) {p : CacheState σ} (h : RunInv g zone z₀ p) :
    RunInv g zone z₀ (cacheStep E g p .recordListFilter) := by
  have hrun := cacheStep_run E g h.running .recordListFilter
  rcases listFilter_spec hservice p.run.2 with ⟨hzone, ⟨hfail, -⟩ | ⟨-, hcall, L, hL, hrec⟩⟩
  · have haction := action_signedRequest E
      (by decide : 0 ∉ bytes "DescribeRecordFilterList") (recordListFilterPayload g) p.run.2
    rw [hok _ _ haction] at hfail
    cases hfail
  · have hcache := h.cache.list hL (hservice.ids _)
    constructor
    · rw [hrun]
      show (dnspodRecordListFilter E g p.run.2).1.map _ = _
      rw [hcall]
      rfl
    · rw [hrun]
      show CacheInv g z₀ (p.listings + 1) (zone (dnspodRecordListFilter E g p.run.2).2.world.net)
        (dnspodRecordListFilter E g p.run.2).2.dnspod.record
      rw [hzone, funext hrec]
      exact hcache

/-- A modification. -/
theorem RunInv.modify (hservice : DnsService E g R zone) {p : CacheState σ}
    (h : RunInv g zone z₀ p) {t : Dnspod.IpType} {ip : Bytes} (hmod : ReadsModify R g ip) :
    RunInv g zone z₀ (cacheStep E g p (.recordModify t ip)) := by
  have hrun := cacheStep_run E g h.running (.recordModify t ip)
  obtain ⟨hrec, hsame⟩ := recordModify_spec hservice hmod t p.run.2 (h.cache.type t)
    (h.cache.typed t)
  constructor
  · rw [hrun]
    rfl
  · rw [hrun]
    show CacheInv g z₀ p.listings (zone (dnspodRecordModify E g t ip p.run.2).2.world.net)
      (dnspodRecordModify E g t ip p.run.2).2.dnspod.record
    rw [funext hrec]
    exact h.cache.modify hsame

variable (hservice : DnsService E g R zone) (hdel : ReadsDeletes R g)
  (hok : ∀ r st, r.action = some (bytes "DescribeRecordFilterList") ∨
    r.action = some (bytes "DeleteRecord") → (E.perform r st).1.ok = true)

include hservice hdel hok

/-- The deletions of a run. -/
theorem RunInv.removes {p : CacheState σ} (h : RunInv g zone z₀ p) :
    (∀ t, (recordDeleteRemainOne E g p.run.2).dnspod.record t = p.run.2.dnspod.record t) ∧
      Removes p.run.2.dnspod.record (zone p.run.2.world.net)
        (zone (recordDeleteRemainOne E g p.run.2).world.net) :=
  deleteRemainOne_spec hservice hdel (fun r st haction => hok r st (.inr haction)) p.run.2
    h.cache.small

/-- Deletions that are safe. -/
theorem RunInv.delete {p : CacheState σ} (h : RunInv g zone z₀ p)
    (hsafe : SafeDelete g z₀ p .recordDeleteRemainOne) :
    RunInv g zone z₀ (cacheStep E g p .recordDeleteRemainOne) := by
  have hrun := cacheStep_run E g h.running .recordDeleteRemainOne
  obtain ⟨hrec, hrem⟩ := h.removes hservice hdel hok
  have hkeeps : KeepsFamilies g z₀ (zone (recordDeleteRemainOne E g p.run.2).world.net) := by
    rcases hsafe rfl with hn | hnone
    · exact h.cache.keeps_of_removes hrem hn
    · rintro t ⟨id, hid⟩
      exact absurd hid (hnone t id)
  constructor
  · rw [hrun]
    rfl
  · rw [hrun]
    show CacheInv g z₀ p.listings (zone (recordDeleteRemainOne E g p.run.2).world.net)
      (recordDeleteRemainOne E g p.run.2).dnspod.record
    rw [funext hrec]
    exact h.cache.remove hrem hkeeps

/-- **One call** keeps the invariant if it is safe. -/
theorem RunInv.step {p : CacheState σ} (h : RunInv g zone z₀ p) {op : CacheOperation}
    (hmod : ∀ t ip, op = .recordModify t ip → ReadsModify R g ip)
    (hsafe : SafeDelete g z₀ p op) : RunInv g zone z₀ (cacheStep E g p op) := by
  cases op with
  | recordListFilter => exact h.list hservice fun r st haction => hok r st (.inl haction)
  | recordDeleteRemainOne => exact h.delete hservice hdel hok hsafe
  | recordModify t ip => exact h.modify hservice (hmod t ip rfl)

/-- A call that is not safe leaves a family without records. -/
theorem RunInv.not_keeps {p : CacheState σ} (h : RunInv g zone z₀ p) {op : CacheOperation}
    (hsafe : ¬ SafeDelete g z₀ p op) :
    ¬ KeepsFamilies g z₀ (zone (cacheStep E g p op).run.2.world.net) := by
  unfold SafeDelete at hsafe
  push Not at hsafe
  obtain ⟨rfl, hn, t, id, hid⟩ := hsafe
  rw [cacheStep_run E g h.running]
  exact h.cache.not_keeps (h.removes hservice hdel hok).2 hn hid

end Runs

/-- **The kept record is never deleted**, whatever the order of the calls,
exactly if no deletion follows two listings or there was no record of a family
to begin with. -/
theorem keep_one_iff {E : Env σ} {g : Config} {R : BodyReader} {zone : σ → Zone}
    (hservice : DnsService E g R zone) (hdel : ReadsDeletes R g)
    (hok : ∀ r st, r.action = some (bytes "DescribeRecordFilterList") ∨
      r.action = some (bytes "DeleteRecord") → (E.perform r st).1.ok = true)
    (config : Bytes) (w : World σ) (ops : List CacheOperation)
    (hmod : ∀ t ip, .recordModify t ip ∈ ops → ReadsModify R g ip) :
    Runs.Always (cacheStep E g)
        (fun p => KeepsFamilies g (zone w.net) (zone p.run.2.world.net)) (cacheStart config w) ops ↔
      Runs.Guarded (cacheStep E g) (SafeDelete g (zone w.net)) (cacheStart config w) ops := by
  refine Runs.always_iff_guarded (fun p (h : RunInv g zone (zone w.net) p) => h.cache.keeps)
    (fun p op hop h hsafe => ?_) (fun p op h hsafe => h.not_keeps hservice hdel hok hsafe)
    (runInv_start config w)
  exact h.step hservice hdel hok (fun t ip heq => hmod t ip (heq ▸ hop)) hsafe

/-- The names that the runs below are about. -/
def sampleConfig : Config := { Config.empty with domainName := bytes "example.com" }

theorem plain_sampleConfig : sampleConfig.Plain := ⟨by decide, by decide⟩

/-- Two listings and then the deletions: both records of the zone are deleted. -/
theorem relisted_deletes_all :
    let E := Env.fixed SampleZone.perform
    let w : World SampleZone := ⟨⟨.old, true⟩, [], 0⟩
    let ops := [CacheOperation.recordListFilter, .recordListFilter, .recordDeleteRemainOne]
    (DnsService E sampleConfig jsonReader SampleZone.zone ∧ ReadsDeletes jsonReader sampleConfig ∧
        ∀ r st, r.action = some (bytes "DescribeRecordFilterList") ∨
          r.action = some (bytes "DeleteRecord") → (E.perform r st).1.ok = true) ∧
      InFamily sampleConfig (SampleZone.zone w.net) .classIpv4 7 ∧
      (ops.foldl (cacheStep E sampleConfig) (cacheStart [] w)).run.2.world.net = ⟨.gone, false⟩ ∧
      ¬ Runs.Always (cacheStep E sampleConfig)
        (fun p => KeepsFamilies sampleConfig (SampleZone.zone w.net)
          (SampleZone.zone p.run.2.world.net)) (cacheStart [] w) ops := by
  intro E w ops
  have hseven : InFamily sampleConfig (SampleZone.zone w.net) .classIpv4 7 :=
    ⟨⟨key "@", key "A", key "192.0.2.1"⟩, rfl, rfl, rfl⟩
  have hnet : (ops.foldl (cacheStep E sampleConfig) (cacheStart [] w)).run.2.world.net =
      ⟨.gone, false⟩ := by decide +kernel
  refine ⟨⟨SampleZone.dnsService rfl, jsonReader_readsDeletes plain_sampleConfig,
    SampleZone.perform_ok⟩, hseven, hnet, fun h => ?_⟩
  obtain ⟨id, e, he, -⟩ := Runs.always_iff_prefix.mp h ops List.prefix_rfl .classIpv4 ⟨7, hseven⟩
  rw [hnet] at he
  have hempty : SampleZone.zone ⟨.gone, false⟩ id = none := by
    unfold SampleZone.zone
    split_ifs <;> rfl
  rw [hempty] at he
  cases he

/-- A run with a refresh after the deletions. -/
theorem keep_one_refreshed :
    let E := Env.fixed SampleZone.perform
    let w : World SampleZone := ⟨⟨.old, true⟩, [], 0⟩
    Runs.Always (cacheStep E sampleConfig)
      (fun p => KeepsFamilies sampleConfig (SampleZone.zone w.net)
        (SampleZone.zone p.run.2.world.net)) (cacheStart [] w)
      [.recordListFilter, .recordDeleteRemainOne, .recordModify .classIpv4 (bytes "8.8.8.8"),
        .recordListFilter] := by
  intro E w
  have hplain : Json.PlainText (bytes "8.8.8.8") := by decide
  refine (keep_one_iff (SampleZone.dnsService rfl) (jsonReader_readsDeletes plain_sampleConfig)
    SampleZone.perform_ok [] w _ fun t ip hop => ?_).mpr ?_
  · obtain ⟨-, rfl⟩ : t = .classIpv4 ∧ ip = bytes "8.8.8.8" := by simpa using hop
    exact jsonReader_readsModify plain_sampleConfig hplain
  · exact ⟨nofun, fun _ => .inl le_rfl, nofun, nofun, trivial⟩

end DdnsCloudTencent
