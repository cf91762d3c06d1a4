import DdnsCloudTencent.Theory.MainRun
import DdnsCloudTencent.Theory.Signature

/-!
# What the secret key decides (custom_cloudTencent.cpp:157)

Two runs of `main` that differ in the secret key, each against a service that
knows its key. The services need not be the same machine: they answer alike
where they accept alike (`AnswersAlike`), and the digests are each run's own.

- `sameButSignature_signedRequest`: signed under two keys, a request changes in
  the 64 digits of its signature only;
- `visit_rekey`: no decoder looks at the key;
- `Twin`: the two runs between two requests; every piece of `main` keeps it;
- `main_any_key`: hence the runs end in the same outcome, with the same records
  and addresses, and their requests differ in the signatures only.

The result codes of the two networks are not related at all: the program never
looks at them. The console, where a debugging line prints the key, is no part of
the model.
-/

namespace DdnsCloudTencent

open Cxx

variable {σ σ' : Type}

/-! ## Requests up to the signature -/

/-- Two requests that agree up to the last 64 bytes of their first header line. -/
structure SameButSignature (r r' : Request) : Prop where
  url : r'.url = r.url
  method : r'.method = r.method
  postFields : r'.postFields = r.postFields
  headers : ∃ (front signature signature' : Bytes) (lines : List CStr),
    signature.length = 64 ∧ signature'.length = 64 ∧
      r.headers = cStr (bytes "Authorization: " ++ (front ++ signature)) :: lines ∧
      r'.headers = cStr (bytes "Authorization: " ++ (front ++ signature')) :: lines

/-- The networks of two runs, `c` and `c'` being the credentials. `N` relates
their states. -/
structure AnswersAlike (E : Env σ) (E' : Env σ') (c c' : Credentials) (N : σ → σ' → Prop) :
    Prop where
  time : E'.time = E.time
  gmtime : E'.gmtime = E.gmtime
  machine : E'.machine = E.machine
  /-- A request that carries no signature. -/
  unsigned : ∀ r st st', N st st' → r.header (bytes "Authorization") = none →
    (E'.perform r st').1.body = (E.perform r st).1.body ∧
      N (E.perform r st).2 (E'.perform r st').2
  /-- A request that both accept. -/
  signed : ∀ r r' st st', N st st' → SameButSignature r r' → Tc3Accepts E c r →
    Tc3Accepts E' c' r' →
    (E'.perform r' st').1.body = (E.perform r st).1.body ∧
      N (E.perform r st).2 (E'.perform r' st').2

/-- The object with another key, and with what was signed under it. -/
def Dnspod.rekey (d : Dnspod) (securityKey requestAuthorization : Bytes) : Dnspod :=
  { d with
    credentials := ⟨securityKey, d.credentials.securityId⟩
    requestAuthorization := requestAuthorization }

@[simp] theorem Dnspod.rekey_record (d : Dnspod) (k a : Bytes) (t : Dnspod.IpType) :
    (d.rekey k a).record t = d.record t := by cases t <;> rfl

theorem Dnspod.rekey_push (d : Dnspod) (k a : Bytes) (t : Dnspod.IpType) (r : RecordListT) :
    (d.rekey k a).push t r = (d.push t r).rekey k a := by cases t <;> rfl

theorem length_tc3Hex (digest : Bytes) : (tc3Hex digest).length = 2 * digest.length := by
  induction digest with
  | nil => rfl
  | cons c digest ih =>
    rw [tc3Hex] at ih
    rw [tc3Hex, List.flatMap_cons, List.length_append, ih, List.length_cons, List.length_cons,
      List.length_nil, List.length_cons]
    omega

theorem length_tc3Signature (E : Env σ) (secretKey date text : Bytes) :
    (tc3Signature E secretKey date text).length = 64 := by
  rw [tc3Signature, length_tc3Hex, Vector.length_toList]

/-- The value of the header line, up to its signature. -/
def authorizationFront (securityId date : Bytes) : Bytes :=
  bytes "TC3-HMAC-SHA256 Credential=" ++ securityId ++ bytes "/" ++ tc3Scope date ++
    bytes ", SignedHeaders=content-type;host, Signature="

/-- The first header line of a request. -/
theorem authorizationLine_eq (E : Env σ) (payload : Bytes) (s : Session σ) :
    ∃ signature : Bytes, signature.length = 64 ∧
      cStr (bytes "Authorization: " ++
        (generateHttpAuthorization E (bytes "POST") payload s).dnspod.requestAuthorization) =
      cStr (bytes "Authorization: " ++ (authorizationFront s.dnspod.credentials.securityId
        (tc3Date (E.gmtime (E.time s.world.ticks))) ++ signature)) := by
  rw [requestAuthorization_eq]
  exact ⟨_, length_tc3Signature E _ _ _, rfl⟩

section OneRequest

variable {E : Env σ} {E' : Env σ'} {s : Session σ} {s' : Session σ'} {k a : Bytes}

/-- The same request, signed by two clients at the same time. -/
theorem sameButSignature_signedRequest (htime : E'.time = E.time) (hgmtime : E'.gmtime = E.gmtime)
    (hd : s'.dnspod = s.dnspod.rekey k a) (hticks : s'.world.ticks = s.world.ticks)
    (action payload : Bytes) :
    SameButSignature (signedRequest E action payload s) (signedRequest E' action payload s') where
  url := rfl
  method := rfl
  postFields := rfl
  headers := by
    have hclock : E'.time s'.world.ticks = E.time s.world.ticks := by rw [htime, hticks]
    obtain ⟨signature, hlength, hline⟩ := authorizationLine_eq E payload s
    obtain ⟨signature', hlength', hline'⟩ := authorizationLine_eq E' payload s'
    -- the id and the date are the first client's, and so are the other lines
    rw [hclock, hgmtime, hd] at hline'
    refine ⟨_, signature, signature', _, hlength, hlength', congrArg (· :: _) hline, ?_⟩
    refine List.cons_eq_cons.mpr ⟨hline', ?_⟩
    simp only [generateHttpAuthorization, readClock, hclock, hd]
    rfl

/-- What signing leaves in the second object. -/
theorem rekey_generateHttpAuthorization (htime : E'.time = E.time) (hgmtime : E'.gmtime = E.gmtime)
    (hd : s'.dnspod = s.dnspod.rekey k a) (hticks : s'.world.ticks = s.world.ticks)
    (payload : Bytes) :
    ∃ a', (generateHttpAuthorization E' (bytes "POST") payload s').dnspod =
      (generateHttpAuthorization E (bytes "POST") payload s).dnspod.rekey k a' := by
  have hclock : E'.time s'.world.ticks = E.time s.world.ticks := by rw [htime, hticks]
  refine ⟨(generateHttpAuthorization E' (bytes "POST") payload s').dnspod.requestAuthorization, ?_⟩
  simp only [generateHttpAuthorization, readClock, hclock, hgmtime, hd]
  rfl

end OneRequest

/-! ## The decoders -/

/-- A decoder's result with the object under another key. -/
def Decoded.rekey (k a : Bytes) (r : Decoded) : Decoded := r.map fun x => (x.1, x.2.rekey k a)

/-- Where no item looks at the key, their visit does not. -/
theorem visit_rekey {body : CJson → Dnspod → Decoded} {k a : Bytes}
    (hbody : ∀ x d, body x (d.rekey k a) = (body x d).rekey k a) (xs : List CJson) (d : Dnspod) :
    visit body xs (d.rekey k a) = (visit body xs d).rekey k a := by
  induction xs generalizing d with
  | nil => rfl
  | cons x xs ih =>
    rw [visit, visit, hbody]
    cases body x d with
    | error f => rfl
    | ok r =>
      obtain ⟨b, d'⟩ := r
      cases b with
      | false => rfl
      | true => exact ih d'

theorem decodeResponse_rekey {M : Machine} {member : String} {body : CJson → Dnspod → Decoded}
    {k a : Bytes} (hbody : ∀ x d, body x (d.rekey k a) = (body x d).rekey k a) (src : Bytes)
    (d : Dnspod) :
    decodeResponse M member body src (d.rekey k a) =
      (decodeResponse M member body src d).rekey k a := by
  rw [decodeResponse_eq, decodeResponse_eq]
  cases replyList M member src with
  | error f => rfl
  | ok r =>
    cases r with
    | none => rfl
    | some items => exact visit_rekey hbody items d

theorem decodeRecordListFilter_rekey (M : Machine) (g : Config) (src k a : Bytes) (d : Dnspod) :
    tencentcloudDecodeRecordListFilter M g src (d.rekey k a) =
      (tencentcloudDecodeRecordListFilter M g src d).rekey k a := by
  refine decodeResponse_rekey (fun x d => ?_) src d
  rw [recordListFilterItem_eq, recordListFilterItem_eq]
  cases itemOutcome M (recordTarget g) x with
  | skip => rfl
  | store t r => exact congrArg (fun d => Except.ok (Bool.true, d)) (d.rekey_push k a t r)
  | missing => rfl
  | fault f => rfl

theorem decodeDomainList_rekey (M : Machine) (g : Config) (src k a : Bytes) (d : Dnspod) :
    tencentcloudDecodeDomainList M g src (d.rekey k a) =
      (tencentcloudDecodeDomainList M g src d).rekey k a := by
  refine decodeResponse_rekey (fun x d => ?_) src d
  unfold domainListItem
  cases tretapCJsonGetObjectItem x (key "Name") with
  | none => rfl
  | some name =>
    by_cases hname : name.valuestring = some (cStr g.domainName)
    · simp only [hname, if_true]
      cases tretapCJsonGetObjectItem x (key "DomainId") with
      | none => rfl
      | some id =>
        simp only
        cases tretapCJsonGetObjectItem x (key "Grade") with
        | none => rfl
        | some grade =>
          simp only
          cases grade.valuestring with
          | none => rfl
          | some text => rfl
    · simp only [hname, if_false]
      rfl

/-! ## Two runs side by side -/

/-- Two runs between two requests, `sent` and `sent'` being the requests before
them. -/
structure Twin (c' : Credentials) (N : σ → σ' → Prop) (sent sent' : List Request)
    (s : Session σ) (s' : Session σ') : Prop where
  dnspod : ∃ a, s'.dnspod = s.dnspod.rekey c'.securityKey a
  net : N s.world.net s'.world.net
  ticks : s'.world.ticks = s.world.ticks
  sent : ∃ rs rs', s.world.sent = sent ++ rs ∧ s'.world.sent = sent' ++ rs' ∧
    List.Forall₂ SameButSignature rs rs'

section Pieces

variable {E : Env σ} {E' : Env σ'} {c c' : Credentials} {N : σ → σ' → Prop}
  {sent₀ sent sent' : List Request} {s : Session σ} {s' : Session σ'}

theorem Twin.signedPost (hE : AnswersAlike E E' c c' N) (hid : 0 ∉ c.securityId)
    (hid' : c'.securityId = c.securityId) (hinv : ClientInv E c sent₀ s)
    (h : Twin c' N sent sent' s s') {payload : Bytes} (hpayload : 0 ∉ payload) (action : Bytes) :
    (signedPost E' action payload s').1 = (signedPost E action payload s).1 ∧
      Twin c' N sent sent' (signedPost E action payload s).2
        (signedPost E' action payload s').2 := by
  obtain ⟨a, hd⟩ := h.dnspod
  have hcred : s'.dnspod.credentials = c' := by
    rw [hd, Dnspod.rekey, hinv.credentials, ← hid']
  have hcontent : s'.dnspod.requestContentType = tencentRequestDefContentType := by
    rw [hd]
    exact hinv.contentType
  have hsame := sameButSignature_signedRequest hE.time hE.gmtime hd h.ticks action payload
  have haccepts := accepts_signedRequest E payload s action (hinv.credentials ▸ hid)
    hinv.contentType hpayload
  have haccepts' := accepts_signedRequest E' payload s' action (hcred ▸ hid' ▸ hid) hcontent
    hpayload
  rw [hinv.credentials] at haccepts
  rw [hcred] at haccepts'
  obtain ⟨hbody, hnet⟩ := hE.signed _ _ _ _ h.net hsame haccepts haccepts'
  obtain ⟨rs, rs', hrs, hrs', hall⟩ := h.sent
  refine ⟨hbody, rekey_generateHttpAuthorization hE.time hE.gmtime hd h.ticks payload, hnet,
    congrArg (· + 1) h.ticks, rs ++ [signedRequest E action payload s],
    rs' ++ [signedRequest E' action payload s'], ?_, ?_, List.rel_append hall (.cons hsame .nil)⟩
  · rw [signedPost_sent, hrs, List.append_assoc]
  · rw [signedPost_sent, hrs', List.append_assoc]

/-- The same reply, decoded into both objects. -/
theorem Twin.decodeInto {decode : Bytes → Dnspod → Decoded}
    (hdecode : ∀ src k a d, decode src (d.rekey k a) = (decode src d).rekey k a)
    {r : Bytes × Session σ} {r' : Bytes × Session σ'} (hreply : r'.1 = r.1)
    (h : Twin c' N sent sent' r.2 r'.2) :
    (decodeInto decode r').1 = (decodeInto decode r).1 ∧
      Twin c' N sent sent' (decodeInto decode r).2 (decodeInto decode r').2 := by
  obtain ⟨a, hd⟩ := h.dnspod
  unfold DdnsCloudTencent.decodeInto
  rw [hreply, hd, hdecode]
  cases decode r.1 r.2.dnspod with
  | error f => exact ⟨rfl, h⟩
  | ok o => exact ⟨rfl, ⟨a, rfl⟩, h.net, h.ticks, h.sent⟩

variable {g : Config} (hE : AnswersAlike E E' c c' N) (hid : 0 ∉ c.securityId)
  (hid' : c'.securityId = c.securityId)

include hE hid hid'

theorem Twin.domainList (hinv : ClientInv E c sent₀ s) (h : Twin c' N sent sent' s s') :
    (dnspodDomainList E' g s').1 = (dnspodDomainList E g s).1 ∧
      Twin c' N sent sent' (dnspodDomainList E g s).2 (dnspodDomainList E' g s').2 := by
  have hpayload : 0 ∉ bytes "\x7b\x7d" := by decide
  obtain ⟨hreply, htwin⟩ := h.signedPost hE hid hid' hinv hpayload (bytes "DescribeDomainList")
  rw [dnspodDomainList, dnspodDomainList, hE.machine]
  exact Twin.decodeInto (fun src k a d => decodeDomainList_rekey E.machine g src k a d) hreply htwin

variable (hg : g.NoNul)

include hg

theorem Twin.recordListFilter (hinv : ClientInv E c sent₀ s) (h : Twin c' N sent sent' s s') :
    (dnspodRecordListFilter E' g s').1 = (dnspodRecordListFilter E g s).1 ∧
      Twin c' N sent sent' (dnspodRecordListFilter E g s).2
        (dnspodRecordListFilter E' g s').2 := by
  obtain ⟨hreply, htwin⟩ := h.signedPost hE hid hid' hinv (noNul_recordListFilterPayload hg)
    (bytes "DescribeRecordFilterList")
  rw [dnspodRecordListFilter, dnspodRecordListFilter, hE.machine]
  exact Twin.decodeInto (fun src k a d => decodeRecordListFilter_rekey E.machine g src k a d) hreply
    htwin

/-- One deletion after the other, over the same records. -/
theorem Twin.deleteLoop (rs : List RecordListT) (hinv : ClientInv E c sent₀ s)
    (h : Twin c' N sent sent' s s') :
    Twin c' N sent sent' (deleteLoop E g rs s) (deleteLoop E' g rs s') := by
  induction rs generalizing s s' with
  | nil => exact h
  | cons r rs ih =>
    have hpayload := noNul_recordDeletePayload hg.domainName r.id.toUInt32
    exact ih (hinv.signedPost hid hpayload _) (h.signedPost hE hid hid' hinv hpayload _).2

theorem Twin.recordDeleteRemainOne (hinv : ClientInv E c sent₀ s)
    (h : Twin c' N sent sent' s s') :
    Twin c' N sent sent' (recordDeleteRemainOne E g s) (recordDeleteRemainOne E' g s') := by
  obtain ⟨a, hd⟩ := h.dnspod
  have hsurplus : surplus s'.dnspod = surplus s.dnspod := by
    rw [hd]
    rfl
  rw [recordDeleteRemainOne_eq, recordDeleteRemainOne_eq, hsurplus]
  exact h.deleteLoop hE hid hid' hg _ hinv

/-- The modification at the end, for the same address object. -/
theorem Twin.modifyIfMatched (t : Dnspod.IpType) {ip : Ipaddress}
    (hip : ∀ text, ip.confirmed = some text → 0 ∉ text) (hinv : ClientInv E c sent₀ s)
    (h : Twin c' N sent sent' s s') :
    (modifyIfMatched E' g t ip s').1 = (modifyIfMatched E g t ip s).1 ∧
      ClientInv E c sent₀ (modifyIfMatched E g t ip s).2 ∧
      Twin c' N sent sent' (modifyIfMatched E g t ip s).2 (modifyIfMatched E' g t ip s').2 := by
  by_cases hsucc : ip.matchWanipWithLocalip.1 = returnSucc
  · have htext : 0 ∉ ip.ipLocal := hip _ (if_pos hsucc)
    obtain ⟨a, hd⟩ := h.dnspod
    have hrecord : s'.dnspod.record t = s.dnspod.record t := by rw [hd, Dnspod.rekey_record]
    have hcall : ClientInv E c sent₀ ((Operation.recordModify t ip.ipLocal).call E g s).2 :=
      hinv.call hg hid htext
    unfold DdnsCloudTencent.modifyIfMatched
    simp only [hsucc, if_true, match_of_succ hsucc]
    refine ⟨trivial, hcall, ?_⟩
    unfold dnspodRecordModify
    rw [hrecord]
    cases hr : s.dnspod.record t with
    | nil => exact h
    | cons record0 rest =>
      have htype := hinv.types t record0 (hr ▸ List.mem_cons_self)
      exact (h.signedPost hE hid hid' hinv (noNul_recordModifyPayload hg htype htext) _).2
  · unfold DdnsCloudTencent.modifyIfMatched
    simp only [hsucc, if_false]
    exact ⟨trivial, hinv, h⟩

/-- Two processes between two requests. -/
structure TwinProcess (c' : Credentials) (N : σ → σ' → Prop) (sent sent' : List Request)
    (p : Process σ) (p' : Process σ') : Prop where
  fileConfig : p'.fileConfig = p.fileConfig
  ipV4 : p'.ipV4 = p.ipV4
  ipV6 : p'.ipV6 = p.ipV6
  session : Twin c' N sent sent' p.session p'.session

/-- The second half of `main`. -/
theorem TwinProcess.mainUpdate {p : Process σ} {p' : Process σ'} (hp : p.fileConfig = g)
    (hip4 : ∀ text, p.ipV4.confirmed = some text → 0 ∉ text)
    (hip6 : ∀ text, p.ipV6.confirmed = some text → 0 ∉ text)
    (hinv : ClientInv E c sent₀ p.session) (h : TwinProcess c' N sent sent' p p') :
    TwinProcess c' N sent sent' (mainUpdate E p) (mainUpdate E' p') := by
  have hinv₁ : ClientInv E c sent₀ (Operation.recordDeleteRemainOne.call E g p.session).2 :=
    hinv.call hg hid trivial
  have htwin₁ := h.session.recordDeleteRemainOne hE hid hid' hg hinv
  obtain ⟨hip4', hinv₂, htwin₂⟩ := htwin₁.modifyIfMatched hE hid hid' hg .classIpv4 hip4 hinv₁
  obtain ⟨hip6', -, htwin₃⟩ := htwin₂.modifyIfMatched hE hid hid' hg .classIpv6 hip6 hinv₂
  rw [DdnsCloudTencent.mainUpdate, DdnsCloudTencent.mainUpdate, h.fileConfig, h.ipV4, h.ipV6, hp]
  exact ⟨rfl, hip4', hip6', htwin₃⟩

end Pieces

/-! ## The whole run -/

section Run

variable {E : Env σ} {E' : Env σ'} {c c' : Credentials} {N : σ → σ' → Prop}

/-- The requests before the first signed one carry no signature. -/
theorem ipCheckRequest_unsigned (url : Bytes) :
    (ipCheckRequest url).header (bytes "Authorization") = none := by
  have hfind : (ipCheckRequest url).header (bytes "Authorization") =
      ([cStr (bytes ": ")].find? fun h =>
        (bytes "Authorization" ++ bytes ": ").isPrefixOf h.toBytes).map fun h =>
          h.toBytes.drop 15 := rfl
  rw [hfind]
  decide

/-- The address check of either family. -/
theorem checkNatWanIp_twin (hE : AnswersAlike E E' c c' N) (url : Bytes) (ip : Ipaddress)
    {w : World σ} {w' : World σ'} (hnet : N w.net w'.net) :
    (ip.checkNatWanIp E' url w').1 = (ip.checkNatWanIp E url w).1 ∧
      N (ip.checkNatWanIp E url w).2.net (ip.checkNatWanIp E' url w').2.net := by
  obtain ⟨hbody, hnext⟩ := hE.unsigned (ipCheckRequest url) _ _ hnet (ipCheckRequest_unsigned url)
  exact ⟨congrArg (decodeIpwan · ip) hbody, hnext⟩

variable (E E') (config config' : Bytes) (ifs : List Ifaddrs) (w : World σ) (w' : World σ')

/-! The way of a run, from what its two listings return. -/

theorem main_of_domainList_error {f : Fault}
    (h : (dnspodDomainList E (mainConfig config) (mainStart E config ifs w).session).1 =
      .error f) :
    main E config ifs w =
      (.error f, { mainStart E config ifs w with session := afterDomainList E config ifs w }) := by
  have hconfig : (mainStart E config ifs w).fileConfig = mainConfig config := rfl
  simp only [main, hconfig, afterDomainList]
  cases hr : dnspodDomainList E (mainConfig config) (mainStart E config ifs w).session with
  | mk r s =>
    rw [hr] at h
    cases h
    rfl

theorem main_of_domainList_ok {b : Bool}
    (h : (dnspodDomainList E (mainConfig config) (mainStart E config ifs w).session).1 = .ok b) :
    (∀ f, (afterListing E config ifs w).1 = .error f → main E config ifs w =
        (.error f, { mainStart E config ifs w with
          session := (afterListing E config ifs w).2 })) ∧
      ∀ b', (afterListing E config ifs w).1 = .ok b' → main E config ifs w =
        (.ok (), mainUpdate E { mainStart E config ifs w with
          session := (afterListing E config ifs w).2 }) := by
  have hconfig : (mainStart E config ifs w).fileConfig = mainConfig config := rfl
  simp only [main, hconfig, afterListing, afterDomainList]
  cases hr : dnspodDomainList E (mainConfig config) (mainStart E config ifs w).session with
  | mk r s =>
    rw [hr] at h
    cases h
    simp only
    cases dnspodRecordListFilter E (mainConfig config) s with
    | mk r' s' =>
      refine ⟨fun f hf => ?_, fun b' hb => ?_⟩
      · cases hf
        rfl
      · cases hb
        rfl

/-- The two processes before the first signed request. -/
theorem mainStart_twin
    (hE : AnswersAlike E E' c (fileSecurityConfigRead config' ⟨[], []⟩) N)
    (hfile : mainConfig config' = mainConfig config)
    (hid : (fileSecurityConfigRead config' ⟨[], []⟩).securityId =
      (fileSecurityConfigRead config ⟨[], []⟩).securityId)
    (hnet : N w.net w'.net) (hticks : w'.ticks = w.ticks) :
    TwinProcess (fileSecurityConfigRead config' ⟨[], []⟩) N
      (w.sent ++ ipChecks (mainConfig config)) (w'.sent ++ ipChecks (mainConfig config))
      (mainStart E config ifs w) (mainStart E' config' ifs w') := by
  let local4 := (Ipaddress.new .classIpv4 (mainConfig config).domainFull).checkLocalIp E.machine ifs
  let local6 := (Ipaddress.new .classIpv6 (mainConfig config).domainFull).checkLocalIp E.machine ifs
  obtain ⟨hip4, hnet4⟩ := checkNatWanIp_twin hE (mainConfig config).checkIpUrlIpv4 local4 hnet
  obtain ⟨hip6, hnet6⟩ := checkNatWanIp_twin hE (mainConfig config).checkIpUrlIpv6 local6 hnet4
  have hstart' : mainStart E' config' ifs w' =
      let v4 := local4.checkNatWanIp E' (mainConfig config).checkIpUrlIpv4 w'
      let v6 := local6.checkNatWanIp E' (mainConfig config).checkIpUrlIpv6 v4.2
      ⟨mainConfig config, v4.1, v6.1, ⟨Dnspod.new config', v6.2⟩⟩ := by
    simp only [local4, local6, ← hE.machine, ← hfile]
    rfl
  have hnew : Dnspod.new config' =
      (Dnspod.new config).rekey (fileSecurityConfigRead config' ⟨[], []⟩).securityKey [] := by
    simp only [Dnspod.new, Dnspod.rekey, ← hid]
  rw [hstart']
  refine ⟨rfl, hip4, hip6, ⟨[], hnew⟩, hnet6, hticks, [], [], ?_, ?_, .nil⟩
  · rw [List.append_nil]
    exact (sends_mainStart E config ifs w).sent
  · rw [List.append_nil]
    exact List.append_assoc _ _ _

/-- What is confirmed is the text of an address. -/
theorem noNul_confirmed {t : Dnspod.IpType} {text : Bytes}
    (h : (mainIp E config ifs w t).confirmed = some text) : 0 ∉ text := by
  obtain ⟨a, -, rfl⟩ := confirmed_mem E config ifs w h
  exact fun h0 => absurd (Ipaddress.IpType.mem_textChars h0) (by decide)

/-- The two processes at the end. -/
theorem main_twin (hconfig : 0 ∉ config) (hfile : mainConfig config' = mainConfig config)
    (hid : (fileSecurityConfigRead config' ⟨[], []⟩).securityId =
      (fileSecurityConfigRead config ⟨[], []⟩).securityId)
    (hE : AnswersAlike E E' (fileSecurityConfigRead config ⟨[], []⟩)
      (fileSecurityConfigRead config' ⟨[], []⟩) N)
    (hnet : N w.net w'.net) (hticks : w'.ticks = w.ticks) :
    (main E' config' ifs w').1 = (main E config ifs w).1 ∧
      TwinProcess (fileSecurityConfigRead config' ⟨[], []⟩) N
        (w.sent ++ ipChecks (mainConfig config)) (w'.sent ++ ipChecks (mainConfig config))
        (main E config ifs w).2 (main E' config' ifs w').2 := by
  have hg : (mainConfig config).NoNul := noNul_fileConfigRead hconfig
  have hidNul := noNul_securityId hconfig
  have hstart := mainStart_twin E E' config config' ifs w w' hE hfile hid hnet hticks
  -- the first run's object, which is the second run's but for the key
  have hinv : ClientInv E (fileSecurityConfigRead config ⟨[], []⟩)
      (mainStart E config ifs w).session.world.sent (mainStart E config ifs w).session := by
    refine ⟨rfl, rfl, List.not_mem_nil, fun t r hr => ?_, [], (List.append_nil _).symm, ?_⟩
    · cases t <;> exact absurd hr List.not_mem_nil
    · exact fun r hr => absurd hr List.not_mem_nil
  have hinv₁ : ClientInv E _ _
      (Operation.domainList.call E (mainConfig config) (mainStart E config ifs w).session).2 :=
    hinv.call hg hidNul trivial
  have hinv₂ : ClientInv E _ _
      (Operation.recordListFilter.call E (mainConfig config) (afterDomainList E config ifs w)).2 :=
    hinv₁.call hg hidNul trivial
  obtain ⟨hret₁, htwin₁⟩ := hstart.session.domainList (g := mainConfig config) hE hidNul hid hinv
  obtain ⟨hret₂, htwin₂⟩ := htwin₁.recordListFilter hE hidNul hid hg hinv₁
  have hreturn :
      (dnspodDomainList E' (mainConfig config') (mainStart E' config' ifs w').session).1 =
      (dnspodDomainList E (mainConfig config) (mainStart E config ifs w).session).1 := by
    rw [hfile]
    exact hret₁
  have hafter : afterListing E' config' ifs w' =
      dnspodRecordListFilter E' (mainConfig config) (dnspodDomainList E' (mainConfig config)
        (mainStart E' config' ifs w').session).2 := by
    rw [afterListing, afterDomainList, hfile]
  rw [← hafter] at hret₂ htwin₂
  cases hr₁ : (dnspodDomainList E (mainConfig config) (mainStart E config ifs w).session).1 with
  | error f =>
    rw [main_of_domainList_error E config ifs w hr₁,
      main_of_domainList_error E' config' ifs w' (hreturn.trans hr₁)]
    have hafter₁ : afterDomainList E' config' ifs w' = (dnspodDomainList E' (mainConfig config)
        (mainStart E' config' ifs w').session).2 := by rw [afterDomainList, hfile]
    rw [← hafter₁] at htwin₁
    exact ⟨rfl, hstart.fileConfig, hstart.ipV4, hstart.ipV6, htwin₁⟩
  | ok b =>
    have hlisted : TwinProcess (fileSecurityConfigRead config' ⟨[], []⟩) N
        (w.sent ++ ipChecks (mainConfig config)) (w'.sent ++ ipChecks (mainConfig config))
        { mainStart E config ifs w with session := (afterListing E config ifs w).2 }
        { mainStart E' config' ifs w' with session := (afterListing E' config' ifs w').2 } :=
      ⟨hstart.fileConfig, hstart.ipV4, hstart.ipV6, htwin₂⟩
    obtain ⟨herror, hok⟩ := main_of_domainList_ok E config ifs w hr₁
    obtain ⟨herror', hok'⟩ := main_of_domainList_ok E' config' ifs w' (hreturn.trans hr₁)
    cases hr₂ : (afterListing E config ifs w).1 with
    | error f =>
      rw [herror f hr₂, herror' f (hret₂.trans hr₂)]
      exact ⟨rfl, hlisted⟩
    | ok b' =>
      rw [hok b' hr₂, hok' b' (hret₂.trans hr₂)]
      exact ⟨rfl, hlisted.mainUpdate hE hidNul hid hg rfl
        (fun _ => noNul_confirmed E config ifs w (t := .classIpv4))
        (fun _ => noNul_confirmed E config ifs w (t := .classIpv6)) hinv₂⟩

/-- **Any other key, the same run.** The configurations differ in the secret key
at most, and each service knows its client's key. Then the two runs end in the
same outcome, with the same addresses and the same object but for the key and
what was signed under it, and their requests are the same up to signatures. -/
theorem main_any_key (hconfig : 0 ∉ config) (hfile : mainConfig config' = mainConfig config)
    (hid : (fileSecurityConfigRead config' ⟨[], []⟩).securityId =
      (fileSecurityConfigRead config ⟨[], []⟩).securityId)
    (hE : AnswersAlike E E' (fileSecurityConfigRead config ⟨[], []⟩)
      (fileSecurityConfigRead config' ⟨[], []⟩) N)
    (hnet : N w.net w'.net) (hticks : w'.ticks = w.ticks) :
    (main E' config' ifs w').1 = (main E config ifs w).1 ∧
      (main E' config' ifs w').2.ipV4 = (main E config ifs w).2.ipV4 ∧
      (main E' config' ifs w').2.ipV6 = (main E config ifs w).2.ipV6 ∧
      (∃ a, (main E' config' ifs w').2.session.dnspod =
        (main E config ifs w).2.session.dnspod.rekey
          (fileSecurityConfigRead config' ⟨[], []⟩).securityKey a) ∧
      N (main E config ifs w).2.session.world.net (main E' config' ifs w').2.session.world.net ∧
      List.Forall₂ (fun r r' => r' = r ∨ SameButSignature r r') (mainSent E config ifs w)
        (mainSent E' config' ifs w') := by
  obtain ⟨hret, hend⟩ := main_twin E E' config config' ifs w w' hconfig hfile hid hE hnet hticks
  refine ⟨hret, hend.ipV4, hend.ipV6, hend.session.dnspod, hend.session.net, ?_⟩
  obtain ⟨rs, rs', hrs, hrs', hall⟩ := hend.session.sent
  rw [mainSent, mainSent, hrs, hrs', List.append_assoc, List.append_assoc, List.drop_left,
    List.drop_left]
  have hchecks : List.Forall₂ (fun r r' => r' = r ∨ SameButSignature r r')
      (ipChecks (mainConfig config)) (ipChecks (mainConfig config)) :=
    List.forall₂_same.mpr fun r _ => .inl rfl
  exact List.rel_append hchecks (hall.imp fun r r' h => .inr h)

end Run

/-- A service that knows its client's credentials: it answers what carries no
signature with `ip`, what it accepts with `body`, and anything else with an
error. Its digests add up bytes. -/
def verifyingEnv (c : Credentials) (ip body : Bytes) : Env Unit :=
  let E : Env Unit := { Env.fixed fun _ _ => (⟨true, []⟩, ()) with
    sha256 := fun m => Vector.replicate 32 (m.foldl (· + ·) 0)
    hmacSha256 := fun k m => Vector.ofFn fun i => m.foldl (· + ·) (k.getD i 0) }
  { E with perform := fun r _ =>
      let authorization := r.header (bytes "Authorization")
      (⟨true, if authorization = none then ip
        else if authorization = tc3Authorization E c r then body
        else bytes "\x7b\"Response\":\x7b\"Error\":\x7b\x7d\x7d\x7d"⟩, ()) }

/-- Two such services answer their clients alike. -/
theorem answersAlike_verifyingEnv (c c' : Credentials) (ip body : Bytes) :
    AnswersAlike (verifyingEnv c ip body) (verifyingEnv c' ip body) c c' fun _ _ => True where
  time := rfl
  gmtime := rfl
  machine := rfl
  unsigned r _ _ _ h := by
    simp only [verifyingEnv, h, if_true]
    exact ⟨trivial, trivial⟩
  signed r r' _ _ _ _ h h' := by
    -- what is accepted gets `body`
    have hbody : ∀ (c : Credentials) (r : Request), Tc3Accepts (verifyingEnv c ip body) c r →
        ((verifyingEnv c ip body).perform r ()).1.body = body := by
      rintro c r ⟨a, ha, hr⟩
      have hne : r.header (bytes "Authorization") ≠ none := by
        rw [hr]
        exact Option.some_ne_none a
      exact (if_neg hne).trans (if_pos (hr.trans ha.symm))
    exact ⟨(hbody c' r' h').trans (hbody c r h).symm, trivial⟩

/-- A run that deletes and modifies, under two keys. -/
theorem main_any_key_sample :
    let config := bytes "key=k1\nkeyid=AKID\ndomain_name=example.com\n"
    let config' := bytes "key=another\nkeyid=AKID\ndomain_name=example.com\n"
    let body := bytes "\x7b\"Response\":\x7b\"RecordList\":[" ++
      bytes "\x7b\"Name\":\"@\",\"Type\":\"A\",\"Value\":\"192.0.2.1\",\"RecordId\":7\x7d," ++
      bytes "\x7b\"Name\":\"@\",\"Type\":\"A\",\"Value\":\"192.0.2.2\",\"RecordId\":8\x7d]\x7d\x7d"
    let E := verifyingEnv (fileSecurityConfigRead config ⟨[], []⟩) (bytes "8.8.8.8\n") body
    let E' := verifyingEnv (fileSecurityConfigRead config' ⟨[], []⟩) (bytes "8.8.8.8\n") body
    let ifs : List Ifaddrs := [⟨some (.inet 0x08080808)⟩]
    let w : World Unit := ⟨(), [], 0⟩
    (fileSecurityConfigRead config' ⟨[], []⟩).securityKey ≠
        (fileSecurityConfigRead config ⟨[], []⟩).securityKey ∧
      (main E' config' ifs w).1 = (main E config ifs w).1 ∧
      List.Forall₂ (fun r r' => r' = r ∨ SameButSignature r r') (mainSent E config ifs w)
        (mainSent E' config' ifs w) := by
  intro config config' body E E' ifs w
  have hfile : mainConfig config' = mainConfig config := by decide
  have hid : (fileSecurityConfigRead config' ⟨[], []⟩).securityId =
    (fileSecurityConfigRead config ⟨[], []⟩).securityId := by decide
  obtain ⟨hret, -, -, -, -, hall⟩ := main_any_key E E' config config' ifs w w (by decide) hfile hid
    (answersAlike_verifyingEnv _ _ _ _) trivial rfl
  exact ⟨by decide, hret, hall⟩

end DdnsCloudTencent
