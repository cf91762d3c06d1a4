import DdnsCloudTencent.MainSteps
import DdnsCloudTencent.Theory.RunSafety

/-!
# What a step of a run does

`Client.next` goes through `main` request by request.

- `main_eq_alone`: a run whose steps nothing comes between is one of `main`;
- `next_sends`: a step sends at most one request, and this changes something
  only where it is the deletion of a pending record or the modification of a
  cached one;
- `next_frame`: what a step leaves alone in its process.
-/

namespace DdnsCloudTencent

open Cxx Parties

variable {σ : Type}

/-! ## The two definitions of a run agree -/

theorem toDelete_eq (d : Dnspod) : Client.toDelete d = surplus d := by
  have hguard : ∀ rs : List RecordListT, (if rs.length > 1 then rs.drop 1 else []) = rs.drop 1 := by
    intro rs
    split
    · rfl
    · next h => rw [List.drop_of_length_le (by omega)]
  rw [Client.toDelete, hguard, hguard, surplus]

/-- The steps of the delete loops. -/
theorem alone_recordDelete (E : Env σ) {c : Client} {it : List RecordListT}
    (h : c.phase = .recordDelete it) (w : World σ) :
    let s := deleteLoop E c.fileConfig it ⟨c.dnspod, w⟩
    (alone (Client.next E))^[it.length] (c, w) =
      ({ c with phase := .recordDelete [], dnspod := s.dnspod }, s.world) := by
  induction it generalizing c w with
  | nil =>
    obtain ⟨phase, g, ipV4, ipV6, d⟩ := c
    cases h
    rfl
  | cons r it ih =>
    have hstep : Client.next E c w =
        some ({ c with phase := .recordDelete it
                       dnspod := (dnspodRecordDelete E c.fileConfig.domainName r.id.toUInt32
                         ⟨c.dnspod, w⟩).2.dnspod },
          (dnspodRecordDelete E c.fileConfig.domainName r.id.toUInt32 ⟨c.dnspod, w⟩).2.world) := by
      rw [Client.next, h]
    rw [List.length_cons, Function.iterate_succ_apply, alone_of_some hstep]
    exact ih rfl _

/-- From the delete loops on, a run does what `mainUpdate` does. -/
theorem alone_mainUpdate (E : Env σ) (p : Process σ) :
    ∃ n, (alone (Client.next E))^[n]
        (p.client (.recordDelete (Client.toDelete p.session.dnspod)), p.session.world) =
      ((mainUpdate E p).client (.ended (.ok ())), (mainUpdate E p).session.world) := by
  have hloop := alone_recordDelete E
    (c := p.client (.recordDelete (Client.toDelete p.session.dnspod))) rfl p.session.world
  have hdelete : deleteLoop E p.fileConfig (Client.toDelete p.session.dnspod) p.session =
      recordDeleteRemainOne E p.fileConfig p.session := by
    rw [toDelete_eq, recordDeleteRemainOne_eq]
  -- the end of the loops and the two modifications are three more steps
  refine ⟨3 + (Client.toDelete p.session.dnspod).length, ?_⟩
  rw [Function.iterate_add_apply, hloop]
  unfold mainUpdate
  rw [← hdelete]
  rfl

/-- **A run alone is a run of `main`**: step by step it comes to the same end. -/
theorem main_eq_alone (E : Env σ) (config : Bytes) (ifs : List Ifaddrs) (w : World σ) :
    ∃ n, (alone (Client.next E))^[n] (Client.start E config ifs, w) =
      ((main E config ifs w).2.client (.ended (main E config ifs w).1),
        (main E config ifs w).2.session.world) := by
  -- the two IP checks come first
  have hchecks : (alone (Client.next E))^[2] (Client.start E config ifs, w) =
      ((mainStart E config ifs w).client .domainList, (mainStart E config ifs w).session.world) :=
    rfl
  unfold main
  generalize mainStart E config ifs w = p at hchecks ⊢
  have hdomains : (alone (Client.next E))^[1] (p.client .domainList, p.session.world) =
      let r := dnspodDomainList E p.fileConfig p.session
      ({ p with session := r.2 }.client (Phase.recordListFilter.afterListing r.1), r.2.world) := rfl
  simp only
  generalize dnspodDomainList E p.fileConfig p.session = r at hdomains ⊢
  obtain ⟨f | b, s⟩ := r
  · refine ⟨1 + 2, ?_⟩
    rw [Function.iterate_add_apply, hchecks]
    exact hdomains
  -- then the listing, and the rest
  let p' : Process σ := { p with session := s }
  have hlisting : (alone (Client.next E))^[1] (p'.client .recordListFilter, s.world) =
      let r := dnspodRecordListFilter E p.fileConfig s
      let phase := Phase.recordDelete (Client.toDelete r.2.dnspod)
      ({ p with session := r.2 }.client (phase.afterListing r.1), r.2.world) := rfl
  simp only
  generalize dnspodRecordListFilter E p.fileConfig s = r at hlisting ⊢
  obtain ⟨f | b', s'⟩ := r
  · refine ⟨1 + (1 + 2), ?_⟩
    rw [Function.iterate_add_apply, Function.iterate_add_apply, hchecks, hdomains]
    exact hlisting
  obtain ⟨n, hrest⟩ := alone_mainUpdate E { p with session := s' }
  refine ⟨n + (1 + (1 + 2)), ?_⟩
  rw [Function.iterate_add_apply, Function.iterate_add_apply, Function.iterate_add_apply, hchecks,
    hdomains]
  exact (congrArg _ hlisting).trans hrest

/-- Among any clients, a stretch of one that has not begun is its run of `main`. -/
theorem run_replicate_main {I : Type} [DecidableEq I] {E : Env σ} {config : Bytes}
    {ifs : List Ifaddrs} {c : System I Client (World σ)} {i : I}
    (h : c.own i = Client.start E config ifs) :
    let r := main E config ifs c.world
    ∃ n, c.run (Client.next E) (List.replicate n i) =
      ⟨Function.update c.own i (r.2.client (.ended r.1)), r.2.session.world⟩ := by
  obtain ⟨n, hn⟩ := main_eq_alone E config ifs c.world
  exact ⟨n, by rw [run_replicate, h, hn]⟩

/-- **Runs one after another** are one of the interleavings: some schedule leads
to the world that the runs of `main` lead to, in their order. -/
theorem exists_schedule {I : Type} [DecidableEq I] (E : Env σ) (config : I → Bytes)
    (ifs : I → List Ifaddrs) {js : List I} (hjs : js.Nodup) (c : System I Client (World σ))
    (hc : ∀ j ∈ js, c.own j = Client.start E (config j) (ifs j)) :
    ∃ is, (c.run (Client.next E) is).world =
      js.foldl (fun w j => (main E (config j) (ifs j) w).2.session.world) c.world := by
  induction js generalizing c with
  | nil => exact ⟨[], rfl⟩
  | cons j js ih =>
    obtain ⟨n, hn⟩ := run_replicate_main (hc j List.mem_cons_self)
    obtain ⟨hj, hjs⟩ := List.nodup_cons.mp hjs
    -- the others have not begun
    have hothers : ∀ i ∈ js, (c.run (Client.next E) (List.replicate n j)).own i =
        Client.start E (config i) (ifs i) := by
      intro i hi
      have hne : i ≠ j := fun heq => hj (heq ▸ hi)
      rw [hn]
      exact (Function.update_of_ne hne _ _).trans (hc i (List.mem_cons_of_mem j hi))
    obtain ⟨is, his⟩ := ih hjs _ hothers
    refine ⟨List.replicate n j ++ is, ?_⟩
    rw [System.run, List.foldl_append]
    refine his.trans ?_
    rw [hn]
    rfl

/-! ## One step -/

section Next

variable {E : Env σ} {c c' : Client} {w w' : World σ}

/-- The domain listing leaves the vectors alone. -/
theorem record_dnspodDomainList (E : Env σ) (g : Config) (s : Session σ) (t : Dnspod.IpType) :
    (dnspodDomainList E g s).2.dnspod.record t = s.dnspod.record t := by
  unfold dnspodDomainList decodeInto
  split
  · cases t <;> rfl
  · next b d hdecode =>
    show d.record t = s.dnspod.record t
    rw [(decodeDomainList_frame hdecode).rest]
    cases t <;> rfl

/-- What a request of a client does to the zone: nothing, or the deletion of a
pending record, or the modification of a cached one. -/
inductive Client.Asks (c : Client) (r : Request) : Prop where
  | quiet (h : ¬ r.Mutates)
  | delete (it : RecordListT) (rest : List RecordListT)
      (hphase : c.phase = .recordDelete (it :: rest))
      (h : r.Is (bytes "DeleteRecord") (recordDeletePayload c.fileConfig.domainName it.id.toUInt32))
  | modify (t : Dnspod.IpType) (text : Bytes) (record0 : RecordListT)
      (hconfirmed : (c.ip t).confirmed = some text) (hmem : record0 ∈ c.dnspod.record t)
      (h : r.Is (bytes "ModifyRecord") (recordModifyPayload c.fileConfig record0 text))

/-- The transitions of `main`, the client being `d` after the step. -/
inductive Phase.Next (d : Dnspod) : Phase → Phase → Prop where
  | checkIpv4 : Next d .checkIpv4 .checkIpv6
  | checkIpv6 : Next d .checkIpv6 .domainList
  | domainList : Next d .domainList .recordListFilter
  | domainListFault (f : Fault) : Next d .domainList (.ended (.error f))
  | recordListFilter : Next d .recordListFilter (.recordDelete (surplus d))
  | recordListFilterFault (f : Fault) : Next d .recordListFilter (.ended (.error f))
  | recordDelete (it : RecordListT) (rest : List RecordListT) :
    Next d (.recordDelete (it :: rest)) (.recordDelete rest)
  | deleted : Next d (.recordDelete []) .modifyIpv4
  | modifyIpv4 : Next d .modifyIpv4 .modifyIpv6
  | modifyIpv6 : Next d .modifyIpv6 (.ended (.ok ()))

theorem next_phase (h : Client.next E c w = some (c', w')) :
    Phase.Next c'.dnspod c.phase c'.phase := by
  obtain ⟨phase, g, ipV4, ipV6, d⟩ := c
  cases phase with
  | checkIpv4 =>
    cases h
    exact .checkIpv4
  | checkIpv6 =>
    cases h
    exact .checkIpv6
  | domainList =>
    cases h
    show Phase.Next _ _ (Phase.recordListFilter.afterListing _)
    cases (dnspodDomainList E g ⟨d, w⟩).1 with
    | error f => exact .domainListFault f
    | ok b => exact .domainList
  | recordListFilter =>
    cases h
    show Phase.Next _ _ (Phase.afterListing (.recordDelete (Client.toDelete _)) _)
    rw [toDelete_eq]
    cases (dnspodRecordListFilter E g ⟨d, w⟩).1 with
    | error f => exact .recordListFilterFault f
    | ok b => exact .recordListFilter
  | recordDelete it =>
    cases it with
    | nil =>
      cases h
      exact .deleted
    | cons it rest =>
      cases h
      exact .recordDelete it rest
  | modifyIpv4 =>
    cases h
    exact .modifyIpv4
  | modifyIpv6 =>
    cases h
    exact .modifyIpv6
  | ended ret => cases h

/-- What every step leaves alone in its process. -/
structure Client.Frame (c c' : Client) : Prop where
  fileConfig : c'.fileConfig = c.fileConfig
  validIpwan : ∀ t, (c'.ip t).validIpwan = (c.ip t).validIpwan
  ipLocal : ∀ t, (c'.ip t).ipLocal = (c.ip t).ipLocal

/-- A modification leaves the vectors alone, and of the address object all but the
address that it sets. -/
theorem modifyIfMatched_frame (E : Env σ) (g : Config) (t : Dnspod.IpType) (ip : Ipaddress)
    (s : Session σ) :
    (modifyIfMatched E g t ip s).1.validIpwan = ip.validIpwan ∧
      (modifyIfMatched E g t ip s).1.ipLocal = ip.ipLocal := by
  unfold modifyIfMatched
  by_cases hsucc : ip.matchWanipWithLocalip.1 = returnSucc
  · simp only [hsucc, if_true, match_of_succ hsucc, and_self]
  · have hfail : ip.matchWanipWithLocalip.2 = ip := congrArg Prod.snd (match_of_not_succ hsucc)
    simp only [hsucc, if_false, hfail, and_self]

theorem next_frame (h : Client.next E c w = some (c', w')) : c.Frame c' := by
  unfold Client.next at h
  split at h
  · cases h
    exact ⟨rfl, fun t => by cases t <;> rfl, fun t => by cases t <;> rfl⟩
  · cases h
    exact ⟨rfl, fun t => by cases t <;> rfl, fun t => by cases t <;> rfl⟩
  · cases h
    exact ⟨rfl, fun t => by cases t <;> rfl, fun t => by cases t <;> rfl⟩
  · cases h
    exact ⟨rfl, fun t => by cases t <;> rfl, fun t => by cases t <;> rfl⟩
  · cases h
    exact ⟨rfl, fun t => by cases t <;> rfl, fun t => by cases t <;> rfl⟩
  · cases h
    exact ⟨rfl, fun t => by cases t <;> rfl, fun t => by cases t <;> rfl⟩
  · cases h
    have hip := modifyIfMatched_frame E c.fileConfig .classIpv4 c.ipV4 ⟨c.dnspod, w⟩
    refine ⟨rfl, fun t => ?_, fun t => ?_⟩
    · cases t
      · rfl
      · exact hip.1
    · cases t
      · rfl
      · exact hip.2
  · cases h
    have hip := modifyIfMatched_frame E c.fileConfig .classIpv6 c.ipV6 ⟨c.dnspod, w⟩
    refine ⟨rfl, fun t => ?_, fun t => ?_⟩
    · cases t
      · exact hip.1
      · rfl
    · cases t
      · exact hip.2
      · rfl
  · cases h

/-- The vectors change at the record listing only. -/
theorem next_record (h : Client.next E c w = some (c', w')) (hphase : c.phase ≠ .recordListFilter)
    (t : Dnspod.IpType) : c'.dnspod.record t = c.dnspod.record t := by
  unfold Client.next at h
  split at h
  · cases h
    rfl
  · cases h
    rfl
  · cases h
    exact record_dnspodDomainList E c.fileConfig ⟨c.dnspod, w⟩ t
  · next hlist => exact absurd hlist hphase
  · cases h
    exact (sameState_signedPost E (bytes "DeleteRecord") _ ⟨c.dnspod, w⟩).record t
  · cases h
    rfl
  · cases h
    exact (sends_modifyIfMatched E c.fileConfig .classIpv4 c.ipV4 ⟨c.dnspod, w⟩).1.record t
  · cases h
    exact (sends_modifyIfMatched E c.fileConfig .classIpv6 c.ipV6 ⟨c.dnspod, w⟩).1.record t
  · cases h

theorem Modifies.length_le {g : Config} {records : List RecordListT} {ip : Option Bytes}
    {reqs : List Request} (h : Modifies g records ip reqs) : reqs.length ≤ 1 := by
  unfold Modifies at h
  split at h
  · obtain ⟨req, rfl, -⟩ := h
    exact le_rfl
  · rw [h]
    exact Nat.zero_le 1

/-- A step of the delete loops sends its deletion. -/
theorem next_recordDelete {it : RecordListT} {rest : List RecordListT}
    (hphase : c.phase = .recordDelete (it :: rest)) (h : Client.next E c w = some (c', w')) :
    ∃ r : Request, Sends E w w' [r] ∧ r.Is (bytes "DeleteRecord")
      (recordDeletePayload c.fileConfig.domainName it.id.toUInt32) := by
  obtain ⟨phase, g, ipV4, ipV6, d⟩ := c
  obtain rfl : phase = .recordDelete (it :: rest) := hphase
  cases h
  exact ⟨_, sends_signedPost E _ _ ⟨d, w⟩, signedRequest_is E (by decide) _ _⟩

/-- **The requests of a step**: one at most. -/
theorem next_sends (h : Client.next E c w = some (c', w')) :
    ∃ reqs, Sends E w w' reqs ∧ reqs.length ≤ 1 ∧ ∀ r ∈ reqs, c.Asks r := by
  have hone : ∀ {r : Request}, c.Asks r → [r].length ≤ 1 ∧ ∀ q ∈ [r], c.Asks q := fun hr =>
    ⟨le_rfl, fun q hq => by rw [List.mem_singleton.mp hq]; exact hr⟩
  have hmodify : ∀ t : Dnspod.IpType, ∃ reqs,
      Sends E w (modifyIfMatched E c.fileConfig t (c.ip t) ⟨c.dnspod, w⟩).2.world reqs ∧
        reqs.length ≤ 1 ∧ ∀ r ∈ reqs, c.Asks r := by
    intro t
    obtain ⟨-, reqs, hsends, hmods⟩ := sends_modifyIfMatched E c.fileConfig t (c.ip t) ⟨c.dnspod, w⟩
    refine ⟨reqs, hsends, hmods.length_le, fun r hr => ?_⟩
    obtain ⟨text, record0, htext, hmem, his⟩ := hmods.mem hr
    exact .modify t text record0 htext hmem his
  have hchecks : ∀ r ∈ ipChecks c.fileConfig, ¬ r.Mutates := ipChecks_not_mutates
  unfold Client.next at h
  split at h
  · cases h
    exact ⟨_, ⟨rfl, rfl⟩, hone (.quiet (hchecks _ List.mem_cons_self))⟩
  · cases h
    exact ⟨_, ⟨rfl, rfl⟩, hone (.quiet (hchecks _ (List.mem_cons_of_mem _ List.mem_cons_self)))⟩
  · cases h
    refine ⟨_, sends_decodeInto (sends_signedPost E _ _ ⟨c.dnspod, w⟩), hone (.quiet ?_)⟩
    exact (signedRequest_is E (by decide) _ _).not_mutates (by decide) (by decide)
  · cases h
    refine ⟨_, sends_decodeInto (sends_signedPost E _ _ ⟨c.dnspod, w⟩), hone (.quiet ?_)⟩
    exact (signedRequest_is E (by decide) _ _).not_mutates (by decide) (by decide)
  · next it rest hphase =>
    cases h
    exact ⟨_, sends_signedPost E _ _ ⟨c.dnspod, w⟩,
      hone (.delete it rest hphase (signedRequest_is E (by decide) _ _))⟩
  · cases h
    exact ⟨[], Sends.refl E _, Nat.zero_le 1, fun r hr => absurd hr List.not_mem_nil⟩
  · cases h
    exact hmodify .classIpv4
  · cases h
    exact hmodify .classIpv6
  · cases h

end Next

end DdnsCloudTencent
