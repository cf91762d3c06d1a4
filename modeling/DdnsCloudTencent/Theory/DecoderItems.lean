import DdnsCloudTencent.Theory.Replies

/-!
# What the decoders call for (custom_cloudTencent_response_decode.cpp:33, 82)

Both decoders look up members of an item one after the other and go by the type
that the API documents for them: a `valuestring` is read through, a number is
stored as an id. Only `Name` is tested first.

- `Decoder.calls`: the members that an item calls for, with their kinds;
- `ItemSpec`: what the body of a loop does at an item, by whether the members it
  gets to are there and of their kinds, and what follows for the whole loop
  (`soundBefore_of_safe`, `visit_of_soundBefore`);
- `Decoder.itemSpec`: the two decoders are such loops.
-/

namespace DdnsCloudTencent

open Cxx

/-! ## The two decoders -/

/-- A decoder of replies. -/
inductive Decoder where
  | domainList
  | recordListFilter
deriving DecidableEq

/-- The kind of node that a member is taken for. -/
inductive Kind where
  | string
  | number

/-- A `Number` node. -/
def CJson.isNumber : CJson → Bool
  | .number _ _ => Bool.true
  | _ => Bool.false

/-- A node of a kind. -/
def Kind.Fits : Kind → CJson → Prop
  | .string, v => v.text.isSome
  | .number, v => v.isNumber

instance (k : Kind) (v : CJson) : Decidable (k.Fits v) := by
  cases k <;> unfold Kind.Fits <;> infer_instance

namespace Decoder

/-- The member of `Response` whose items are visited. -/
def list : Decoder → String
  | .domainList => "DomainList"
  | .recordListFilter => "RecordList"

/-- The name that is looked for. -/
def temp (g : Config) : Decoder → CStr
  | .domainList => cStr g.domainName
  | .recordListFilter => recordTarget g

/-- The body of the loop. -/
def body (M : Machine) (g : Config) : Decoder → CJson → Dnspod → Decoded
  | .domainList => domainListItem (cStr g.domainName)
  | .recordListFilter => recordListFilterItem M (recordTarget g)

/-- The decoder. -/
def decode (M : Machine) (g : Config) : Decoder → Bytes → Dnspod → Decoded
  | .domainList => tencentcloudDecodeDomainList M g
  | .recordListFilter => tencentcloudDecodeRecordListFilter M g

/-- The member that is stored as an id. -/
def idMember : Decoder → Bytes
  | .domainList => bytes "DomainId"
  | .recordListFilter => bytes "RecordId"

/-- The members besides `Name` that an item calls for, in the order in which
they are looked up. -/
def calls (g : Config) (dec : Decoder) (x : CJson) : List (Bytes × Kind) :=
  if Named (dec.temp g) x then
    match dec with
    | .domainList => [(bytes "DomainId", .number), (bytes "Grade", .string)]
    | .recordListFilter =>
      (bytes "Type", .string) ::
        if NamedOf (recordTarget g) .classIpv4 x ∨ NamedOf (recordTarget g) .classIpv6 x then
          [(bytes "Value", .string), (bytes "RecordId", .number)]
        else []
  else []

theorem decode_eq (M : Machine) (g : Config) (dec : Decoder) (src : Bytes) (d : Dnspod) :
    dec.decode M g src d = decodeResponse M dec.list (dec.body M g) src d := by
  cases dec <;> rfl

end Decoder

/-- A member that is there is of its kind. -/
def Called (x : CJson) (m : Bytes × Kind) : Prop := ∀ v ∈ x.lookup m.1, m.2.Fits v

instance (x : CJson) (m : Bytes × Kind) : Decidable (Called x m) :=
  inferInstanceAs (Decidable (∀ v ∈ x.lookup m.1, m.2.Fits v))

/-- Up to the first member that is missing, all are of their kinds. -/
def SoundCalls (x : CJson) : List (Bytes × Kind) → Prop
  | [] => True
  | m :: ms => Called x m ∧ ((x.lookup m.1).isSome → SoundCalls x ms)

instance (x : CJson) : (ms : List (Bytes × Kind)) → Decidable (SoundCalls x ms)
  | [] => .isTrue trivial
  | m :: ms =>
    have : Decidable (SoundCalls x ms) := instDecidableSoundCalls x ms
    inferInstanceAs (Decidable (Called x m ∧ ((x.lookup m.1).isSome → SoundCalls x ms)))

/-- No member is missing. -/
def CompleteCalls (x : CJson) (ms : List (Bytes × Kind)) : Prop :=
  ∀ m ∈ ms, (x.lookup m.1).isSome

/-- The members that the decoder gets to at the item are of their kinds. -/
def Decoder.Sound (g : Config) (dec : Decoder) (x : CJson) : Prop :=
  SoundCalls x (dec.calls g x)

instance (g : Config) (dec : Decoder) (x : CJson) : Decidable (dec.Sound g x) :=
  inferInstanceAs (Decidable (SoundCalls x (dec.calls g x)))

/-- No member that the item calls for is missing. -/
def Decoder.Complete (g : Config) (dec : Decoder) (x : CJson) : Prop :=
  (x.lookup (bytes "Name")).isSome ∧ CompleteCalls x (dec.calls g x)

/-- A member that the item calls for is of another kind. -/
def Decoder.Mistyped (g : Config) (dec : Decoder) (x : CJson) : Prop :=
  ∃ m ∈ dec.calls g x, ¬ Called x m

theorem called_of_sound {x : CJson} {ms : List (Bytes × Kind)} (h : SoundCalls x ms)
    (hc : CompleteCalls x ms) : ∀ m ∈ ms, Called x m := by
  induction ms with
  | nil => exact fun m hm => absurd hm List.not_mem_nil
  | cons m ms ih =>
    obtain ⟨hm, hms⟩ := List.forall_mem_cons.mp hc
    exact List.forall_mem_cons.mpr ⟨h.1, ih (h.2 hm) hms⟩

/-! ## A loop over items -/

/-- The turn of an item changes an id of some object. -/
def StoresId (body : CJson → Dnspod → Decoded) (x : CJson) : Prop :=
  ∃ d b d', body x d = .ok (b, d') ∧
    (d'.domainId ≠ d.domainId ∨ ∃ t, (d'.record t).map (·.id) ≠ (d.record t).map (·.id))

/-- The loop gets to an item. -/
def Reached (body : CJson → Dnspod → Decoded) (items : List CJson) (d : Dnspod) (x : CJson) :
    Prop :=
  ∃ pre post d', items = pre ++ x :: post ∧ visit body pre d = .ok (true, d')

/-- What the body of a loop does at an item. -/
structure ItemSpec (body : CJson → Dnspod → Decoded) (idMember : Bytes)
    (Complete Sound : CJson → Prop) : Prop where
  goesOn : ∀ x d, Sound x → Complete x → ∃ d', body x d = .ok (true, d')
  stops : ∀ x d, Sound x → ¬ Complete x → ∃ d', body x d = .ok (false, d')
  numbered : ∀ x, Sound x → StoresId body x → ∃ v ∈ x.lookup idMember, v.isNumber
  fooled : ∀ x, ¬ Sound x → (∀ d, body x d = .error .nullString) ∨
    (StoresId body x ∧ ∀ v ∈ x.lookup idMember, ¬ v.isNumber)

theorem visit_append_of_true {body : CJson → Dnspod → Decoded} {pre : List CJson} {d d' : Dnspod}
    (h : visit body pre d = .ok (true, d')) (rest : List CJson) :
    visit body (pre ++ rest) d = visit body rest d' := by
  induction pre generalizing d with
  | nil =>
    cases h
    rfl
  | cons x pre ih =>
    rw [visit] at h
    rw [List.cons_append, visit]
    cases hx : body x d with
    | error f =>
      rw [hx] at h
      cases h
    | ok r =>
      obtain ⟨b, d₁⟩ := r
      rw [hx] at h
      cases b with
      | false => cases h
      | true => exact ih h

section Loop

variable {body : CJson → Dnspod → Decoded} {idMember : Bytes} {Complete Sound : CJson → Prop}
  (hspec : ItemSpec body idMember Complete Sound)

include hspec

theorem visit_of_sound {pre : List CJson} (h : ∀ x ∈ pre, Sound x ∧ Complete x) (d : Dnspod) :
    ∃ d', visit body pre d = .ok (true, d') := by
  induction pre generalizing d with
  | nil => exact ⟨d, rfl⟩
  | cons x pre ih =>
    obtain ⟨hx, hpre⟩ := List.forall_mem_cons.mp h
    obtain ⟨d₁, hd₁⟩ := hspec.goesOn x d hx.1 hx.2
    obtain ⟨d', hd'⟩ := ih hpre d₁
    refine ⟨d', ?_⟩
    rw [visit, hd₁]
    exact hd'

/-- An item with no incomplete one before it is sound. -/
def SoundBefore (Complete Sound : CJson → Prop) (items : List CJson) : Prop :=
  ∀ pre x post, items = pre ++ x :: post → (∀ y ∈ pre, Complete y) → Sound x

/-- Items that the loop has gone over are complete. -/
theorem complete_of_visit {items : List CJson} (hsound : SoundBefore Complete Sound items)
    (done : List CJson) {pre rest : List CJson} (hitems : items = done ++ (pre ++ rest))
    (hdone : ∀ y ∈ done, Complete y) {d d' : Dnspod} (h : visit body pre d = .ok (true, d')) :
    ∀ y ∈ pre, Complete y := by
  induction pre generalizing done d with
  | nil => exact fun y hy => absurd hy List.not_mem_nil
  | cons x pre ih =>
    have hx : Sound x := hsound done x (pre ++ rest) hitems hdone
    rw [visit] at h
    by_cases hc : Complete x
    · obtain ⟨d₁, hd₁⟩ := hspec.goesOn x d hx hc
      rw [hd₁] at h
      have hnext : items = (done ++ [x]) ++ (pre ++ rest) := by
        rw [hitems, List.append_assoc]
        rfl
      have hdone' : ∀ y ∈ done ++ [x], Complete y := by
        intro y hy
        rcases List.mem_append.mp hy with hy | hy
        · exact hdone y hy
        · rw [List.mem_singleton.mp hy]
          exact hc
      exact List.forall_mem_cons.mpr ⟨hc, ih (done ++ [x]) hnext hdone' h⟩
    · obtain ⟨d₁, hd₁⟩ := hspec.stops x d hx hc
      rw [hd₁] at h
      cases h

/-- Where no fault is met and no id is taken from another node, the items that
the loop gets to are sound. -/
theorem soundBefore_of_safe {items : List CJson} {d : Dnspod}
    (hnull : visit body items d ≠ .error .nullString)
    (hids : ∀ x, Reached body items d x → StoresId body x →
      ∃ v ∈ x.lookup idMember, v.isNumber) :
    SoundBefore Complete Sound items := by
  have hreached : ∀ pre x post, items = pre ++ x :: post →
      (∀ y ∈ pre, Sound y ∧ Complete y) → Sound x := by
    intro pre x post hitems hpre
    obtain ⟨d', hd'⟩ := visit_of_sound hspec hpre d
    by_contra hx
    rcases hspec.fooled x hx with hfault | ⟨hstores, hno⟩
    · refine hnull ?_
      rw [hitems, visit_append_of_true hd', visit, hfault d']
    · obtain ⟨v, hv, hnumber⟩ := hids x ⟨pre, post, d', hitems, hd'⟩ hstores
      exact hno v hv hnumber
  -- the items before are sound themselves, each by the ones before it
  have hbefore : ∀ pre post, items = pre ++ post → (∀ y ∈ pre, Complete y) →
      ∀ y ∈ pre, Sound y ∧ Complete y := by
    intro pre
    induction pre using List.reverseRecOn with
    | nil => exact fun _ _ _ y hy => absurd hy List.not_mem_nil
    | append_singleton pre z ih =>
      intro post hitems hc y hy
      rw [List.append_assoc] at hitems
      have hpre := ih ([z] ++ post) hitems fun y hy => hc y (List.mem_append_left _ hy)
      rcases List.mem_append.mp hy with hy | hy
      · exact hpre y hy
      · obtain rfl := List.mem_singleton.mp hy
        exact ⟨hreached pre y post hitems hpre, hc y (List.mem_append_right _ hy)⟩
  intro pre x post hitems hc
  exact hreached pre x post hitems (hbefore pre (x :: post) hitems hc)

/-- An item that the loop gets to has complete items only before it. -/
theorem complete_of_reached {items : List CJson} (hsound : SoundBefore Complete Sound items)
    {d : Dnspod} {x : CJson} (h : Reached body items d x) :
    ∃ pre post, items = pre ++ x :: post ∧ ∀ y ∈ pre, Complete y := by
  obtain ⟨pre, post, d', hitems, hvisit⟩ := h
  exact ⟨pre, post, hitems, complete_of_visit hspec hsound []
    hitems (fun y hy => absurd hy List.not_mem_nil) hvisit⟩

/-- Where the items that the loop gets to are sound, it ends with success on a
list of complete items, and without on any other. -/
theorem visit_of_soundBefore {items : List CJson} (hsound : SoundBefore Complete Sound items)
    (d : Dnspod) :
    ((∀ x ∈ items, Complete x) ∧ (∀ x ∈ items, Sound x) ∧
        ∃ d', visit body items d = .ok (true, d')) ∨
      ((∃ x ∈ items, ¬ Complete x) ∧ ∃ d', visit body items d = .ok (false, d')) := by
  have hfrom : ∀ rest pre d, items = pre ++ rest → (∀ y ∈ pre, Complete y) →
      ((∀ x ∈ rest, Complete x) ∧ (∀ x ∈ rest, Sound x) ∧
        ∃ d', visit body rest d = .ok (true, d')) ∨
      ((∃ x ∈ rest, ¬ Complete x) ∧ ∃ d', visit body rest d = .ok (false, d')) := by
    intro rest
    induction rest with
    | nil =>
      exact fun _ d _ _ => .inl ⟨fun x hx => absurd hx List.not_mem_nil,
        fun x hx => absurd hx List.not_mem_nil, d, rfl⟩
    | cons x rest ih =>
      intro pre d hitems hpre
      have hx : Sound x := hsound pre x rest hitems hpre
      -- the item lets the loop go on, or ends it
      by_cases hc : Complete x
      · obtain ⟨d₁, hd₁⟩ := hspec.goesOn x d hx hc
        have hnext : items = (pre ++ [x]) ++ rest := by
          rw [hitems, List.append_assoc]
          rfl
        have hpre' : ∀ y ∈ pre ++ [x], Complete y := by
          intro y hy
          rcases List.mem_append.mp hy with hy | hy
          · exact hpre y hy
          · rw [List.mem_singleton.mp hy]
            exact hc
        rw [visit, hd₁]
        rcases ih (pre ++ [x]) d₁ hnext hpre' with ⟨hall, hsnd, hend⟩ | ⟨⟨y, hy, hyc⟩, hend⟩
        · exact .inl ⟨List.forall_mem_cons.mpr ⟨hc, hall⟩,
            List.forall_mem_cons.mpr ⟨hx, hsnd⟩, hend⟩
        · exact .inr ⟨⟨y, List.mem_cons_of_mem x hy, hyc⟩, hend⟩
      · obtain ⟨d₁, hd₁⟩ := hspec.stops x d hx hc
        rw [visit, hd₁]
        exact .inr ⟨⟨x, List.mem_cons_self, hc⟩, d₁, rfl⟩
  exact hfrom items [] d rfl fun y hy => absurd hy List.not_mem_nil

end Loop

/-! ## The bodies of the two loops -/

theorem record_push_ids (d : Dnspod) (t : Dnspod.IpType) (r : RecordListT) :
    ((d.push t r).record t).map (·.id) ≠ (d.record t).map (·.id) := by
  intro h
  have hlen := congrArg List.length h
  cases t <;> simp [Dnspod.push, Dnspod.record] at hlen

theorem exists_name_of_named {temp : CStr} {x : CJson} (h : Named temp x) :
    ∃ name, x.lookup (bytes "Name") = some name :=
  (Option.bind_eq_some_iff.mp h).imp fun _ h => h.1

/-- An item of a family has a type, a string. -/
theorem exists_type_of_namedOf {temp : CStr} {x : CJson} {t : Dnspod.IpType}
    (h : NamedOf temp t x) :
    ∃ ty, x.lookup (bytes "Type") = some ty ∧ ty.valuestring = some (key t.typeText) :=
  Option.bind_eq_some_iff.mp h.2

theorem ne_of_ids {d d' : Dnspod} (h : d'.domainId ≠ d.domainId ∨
    ∃ t, (d'.record t).map (·.id) ≠ (d.record t).map (·.id)) : d' ≠ d := by
  rintro rfl
  rcases h with h | ⟨t, h⟩
  · exact h rfl
  · exact h rfl

theorem calls_domainList (g : Config) (x : CJson) :
    Decoder.calls g .domainList x = if Named (cStr g.domainName) x then
      [(bytes "DomainId", .number), (bytes "Grade", .string)] else [] := rfl

theorem calls_recordListFilter (g : Config) (x : CJson) :
    Decoder.calls g .recordListFilter x = if Named (recordTarget g) x then
      (bytes "Type", .string) ::
        if NamedOf (recordTarget g) .classIpv4 x ∨ NamedOf (recordTarget g) .classIpv6 x then
          [(bytes "Value", .string), (bytes "RecordId", .number)]
        else []
      else [] := rfl

/-- A domain item, sound: the id is a number and, behind it, the grade a string. -/
theorem sound_domainList_iff {g : Config} {x : CJson} :
    Decoder.Sound g .domainList x ↔ (Named (cStr g.domainName) x →
      (∀ v ∈ x.lookup (bytes "DomainId"), v.isNumber) ∧
        ((x.lookup (bytes "DomainId")).isSome →
          ∀ v ∈ x.lookup (bytes "Grade"), v.text.isSome)) := by
  rw [Decoder.Sound, calls_domainList]
  split_ifs with h
  · simp only [SoundCalls, Called, Kind.Fits, implies_true, and_true]
    exact ⟨fun hs _ => hs, fun hs => hs h⟩
  · exact iff_of_true trivial fun hn => absurd hn h

theorem complete_domainList_iff {g : Config} {x : CJson} :
    Decoder.Complete g .domainList x ↔ (x.lookup (bytes "Name")).isSome ∧
      (Named (cStr g.domainName) x →
        (x.lookup (bytes "DomainId")).isSome ∧ (x.lookup (bytes "Grade")).isSome) := by
  rw [Decoder.Complete, calls_domainList]
  refine and_congr_right fun _ => ?_
  split_ifs with h
  · simp only [CompleteCalls, List.forall_mem_cons, List.not_mem_nil, false_imp_iff, implies_true,
      and_true]
    exact ⟨fun hs _ => hs, fun hs => hs h⟩
  · exact iff_of_true (fun m hm => absurd hm List.not_mem_nil) fun hn => absurd hn h

/-- An object whose `domain_id` is not `i`. -/
theorem exists_domainId_ne (i : UInt64) : ∃ d : Dnspod, i ≠ d.domainId :=
  ⟨{ Dnspod.new [] with domainId := i + 1 }, by simp⟩

/-- An item of the domain with an id: the id is stored before the grade is
looked up. -/
theorem body_domainList_of_named (M : Machine) {g : Config} {x name i : CJson}
    (hname : x.lookup (bytes "Name") = some name) (hn : Named (cStr g.domainName) x)
    (hi : x.lookup (bytes "DomainId") = some i) (d : Dnspod) :
    Decoder.body M g .domainList x d =
      match x.lookup (bytes "Grade") with
      | none => .ok (false, { d with domainId := i.wideId })
      | some v =>
        match v.text with
        | none => .error .nullString
        | some grade => .ok (true, { d with domainId := i.wideId, domainGrade := grade }) := by
  show domainListItem _ x d = _
  rw [domainListItem_eq, hname, hi]
  exact if_pos hn

section DomainItem

variable {M : Machine} {g : Config} {x : CJson}

theorem body_domainList_goesOn (hs : Decoder.Sound g .domainList x)
    (hc : Decoder.Complete g .domainList x) (d : Dnspod) :
    ∃ d', Decoder.body M g .domainList x d = .ok (true, d') := by
  rw [sound_domainList_iff] at hs
  obtain ⟨hname, hc⟩ := complete_domainList_iff.mp hc
  obtain ⟨name, hname⟩ := Option.isSome_iff_exists.mp hname
  by_cases hn : Named (cStr g.domainName) x
  · obtain ⟨hid, hgrade⟩ := hc hn
    obtain ⟨i, hi⟩ := Option.isSome_iff_exists.mp hid
    obtain ⟨v, hv⟩ := Option.isSome_iff_exists.mp hgrade
    obtain ⟨s, hstr⟩ := Option.isSome_iff_exists.mp ((hs hn).2 hid v hv)
    have hbody := body_domainList_of_named M hname hn hi d
    simp only [hv, hstr] at hbody
    exact ⟨_, hbody⟩
  · -- an item of another name is passed over
    refine ⟨d, ?_⟩
    show domainListItem _ x d = _
    rw [domainListItem_eq, hname]
    exact if_neg hn

theorem body_domainList_stops (hc : ¬ Decoder.Complete g .domainList x) (d : Dnspod) :
    ∃ d', Decoder.body M g .domainList x d = .ok (false, d') := by
  show ∃ d', domainListItem _ x d = _
  rw [domainListItem_eq]
  cases hname : x.lookup (bytes "Name") with
  | none => exact ⟨d, rfl⟩
  | some name =>
    -- only an item of the name calls for more
    have hn : Named (cStr g.domainName) x := by
      by_contra hn
      exact hc (complete_domainList_iff.mpr ⟨by rw [hname]; rfl, fun h => absurd h hn⟩)
    simp only [if_pos hn]
    cases hi : x.lookup (bytes "DomainId") with
    | none => exact ⟨d, rfl⟩
    | some i =>
      cases hv : x.lookup (bytes "Grade") with
      | none => exact ⟨_, rfl⟩
      | some v =>
        exact absurd (complete_domainList_iff.mpr ⟨by rw [hname]; rfl,
          fun _ => ⟨by rw [hi]; rfl, by rw [hv]; rfl⟩⟩) hc

/-- An id is stored only at an item of the name, and from its `DomainId`. -/
theorem exists_domainId_of_storesId (h : StoresId (Decoder.body M g .domainList) x) :
    Named (cStr g.domainName) x ∧ ∃ i, x.lookup (bytes "DomainId") = some i := by
  obtain ⟨d, b, d', hbody, hids⟩ := h
  have hsame : d' ≠ d := ne_of_ids hids
  have hbody : domainListItem (cStr g.domainName) x d = .ok (b, d') := hbody
  rw [domainListItem_eq] at hbody
  cases hname : x.lookup (bytes "Name") with
  | none =>
    rw [hname] at hbody
    cases hbody
    exact absurd rfl hsame
  | some name =>
    rw [hname] at hbody
    by_cases hn : Named (cStr g.domainName) x
    · cases hi : x.lookup (bytes "DomainId") with
      | none =>
        simp only [if_pos hn, hi] at hbody
        cases hbody
        exact absurd rfl hsame
      | some i => exact ⟨hn, i, rfl⟩
    · simp only [if_neg hn] at hbody
      cases hbody
      exact absurd rfl hsame

/-- At an unsound item the grade is read through NULL, or an id is stored that is
no number. -/
theorem body_domainList_fooled (hs : ¬ Decoder.Sound g .domainList x) :
    (∀ d, Decoder.body M g .domainList x d = .error .nullString) ∨
      (StoresId (Decoder.body M g .domainList) x ∧
        ∀ v ∈ x.lookup (bytes "DomainId"), ¬ v.isNumber) := by
  rw [sound_domainList_iff, Classical.not_imp] at hs
  obtain ⟨hn, hs⟩ := hs
  obtain ⟨name, hname⟩ := exists_name_of_named hn
  cases hi : x.lookup (bytes "DomainId") with
  | none => simp [hi] at hs
  | some i =>
    have hbody := body_domainList_of_named M hname hn hi
    obtain ⟨d, hd⟩ := exists_domainId_ne i.wideId
    cases hv : x.lookup (bytes "Grade") with
    | none =>
      simp only [hv] at hbody
      refine .inr ⟨⟨d, _, _, hbody d, .inl hd⟩, fun v hv' => ?_⟩
      obtain rfl : i = v := Option.some.inj hv'
      intro hnumber
      simp [hi, hv, hnumber] at hs
    | some v =>
      cases hstr : v.text with
      | none =>
        simp only [hv, hstr] at hbody
        exact .inl hbody
      | some s =>
        simp only [hv, hstr] at hbody
        refine .inr ⟨⟨d, _, _, hbody d, .inl hd⟩, fun v hv' => ?_⟩
        obtain rfl : i = v := Option.some.inj hv'
        intro hnumber
        simp [hi, hv, hnumber, hstr] at hs

end DomainItem

/-- The domain decoder's body. -/
theorem domainList_itemSpec (M : Machine) (g : Config) :
    ItemSpec (Decoder.body M g .domainList) (bytes "DomainId")
      (Decoder.Complete g .domainList) (Decoder.Sound g .domainList) where
  goesOn _ d hs hc := body_domainList_goesOn hs hc d
  stops _ d _ hc := body_domainList_stops hc d
  numbered x hs hstores := by
    obtain ⟨hn, i, hi⟩ := exists_domainId_of_storesId hstores
    exact ⟨i, hi, (sound_domainList_iff.mp hs hn).1 i hi⟩
  fooled _ hs := body_domainList_fooled hs

/-- A record item, sound: a string type and, for an `A` or `AAAA` record, a
string value and behind it a number as the id. -/
theorem sound_recordListFilter_iff {g : Config} {x : CJson} :
    Decoder.Sound g .recordListFilter x ↔
      (Named (recordTarget g) x → ∀ v ∈ x.lookup (bytes "Type"), v.text.isSome) ∧
      ∀ t, NamedOf (recordTarget g) t x → (∀ v ∈ x.lookup (bytes "Value"), v.text.isSome) ∧
        ((x.lookup (bytes "Value")).isSome → ∀ v ∈ x.lookup (bytes "RecordId"), v.isNumber) := by
  rw [Decoder.Sound, calls_recordListFilter]
  split_ifs with hn hof
  · simp only [SoundCalls, Called, Kind.Fits, implies_true, and_true]
    constructor
    · rintro ⟨htype, hs⟩
      refine ⟨fun _ => htype, fun t ht => hs ?_⟩
      obtain ⟨ty, hty, -⟩ := exists_type_of_namedOf ht
      rw [hty]
      rfl
    · rintro ⟨htype, hs⟩
      refine ⟨htype hn, fun _ => ?_⟩
      rcases hof with h4 | h6
      · exact hs .classIpv4 h4
      · exact hs .classIpv6 h6
  · simp only [SoundCalls, Called, Kind.Fits, implies_true, and_true]
    rw [not_or] at hof
    constructor
    · intro htype
      refine ⟨fun _ => htype, fun t ht => ?_⟩
      cases t with
      | classIpv4 => exact absurd ht hof.1
      | classIpv6 => exact absurd ht hof.2
    · exact fun h => h.1 hn
  · exact iff_of_true trivial ⟨fun h => absurd h hn, fun t ht => absurd ht.1 hn⟩

theorem complete_recordListFilter_iff {g : Config} {x : CJson} :
    Decoder.Complete g .recordListFilter x ↔ (x.lookup (bytes "Name")).isSome ∧
      (Named (recordTarget g) x → (x.lookup (bytes "Type")).isSome) ∧
      ∀ t, NamedOf (recordTarget g) t x →
        (x.lookup (bytes "Value")).isSome ∧ (x.lookup (bytes "RecordId")).isSome := by
  rw [Decoder.Complete, calls_recordListFilter]
  refine and_congr_right fun _ => ?_
  split_ifs with hn hof
  · simp only [CompleteCalls, List.forall_mem_cons, List.not_mem_nil, false_imp_iff, implies_true,
      and_true]
    constructor
    · rintro ⟨htype, hs⟩
      exact ⟨fun _ => htype, fun t _ => hs⟩
    · rintro ⟨htype, hs⟩
      refine ⟨htype hn, ?_⟩
      rcases hof with h4 | h6
      · exact hs .classIpv4 h4
      · exact hs .classIpv6 h6
  · simp only [CompleteCalls, List.forall_mem_cons, List.not_mem_nil, false_imp_iff, implies_true,
      and_true]
    rw [not_or] at hof
    constructor
    · intro htype
      refine ⟨fun _ => htype, fun t ht => ?_⟩
      cases t with
      | classIpv4 => exact absurd ht hof.1
      | classIpv6 => exact absurd ht hof.2
    · exact fun h => h.1 hn
  · exact iff_of_true (fun m hm => absurd hm List.not_mem_nil)
      ⟨fun h => absurd h hn, fun t ht => absurd ht.1 hn⟩

section RecordItem

variable {M : Machine} {g : Config} {x : CJson}

theorem storesId_of_store {t : Dnspod.IpType} {r : RecordListT}
    (h : itemOutcome M (recordTarget g) x = .store t r) :
    StoresId (Decoder.body M g .recordListFilter) x := by
  refine ⟨Dnspod.new [], true, (Dnspod.new []).push t r, ?_, .inr ⟨t, record_push_ids _ t r⟩⟩
  show recordListFilterItem M _ x _ = _
  rw [recordListFilterItem_eq, h]
  rfl

theorem exists_store_of_storesId (h : StoresId (Decoder.body M g .recordListFilter) x) :
    ∃ t r, itemOutcome M (recordTarget g) x = .store t r := by
  obtain ⟨d, b, d', hbody, hids⟩ := h
  have hbody : recordListFilterItem M (recordTarget g) x d = .ok (b, d') := hbody
  rw [recordListFilterItem_eq] at hbody
  have hsame : d' ≠ d := ne_of_ids hids
  cases ho : itemOutcome M (recordTarget g) x with
  | store t r => exact ⟨t, r, rfl⟩
  | skip =>
    rw [ho] at hbody
    cases hbody
    exact absurd rfl hsame
  | missing =>
    rw [ho] at hbody
    cases hbody
    exact absurd rfl hsame
  | fault f =>
    rw [ho] at hbody
    cases hbody

/-- What the decoder does at an item of a family. -/
theorem itemOutcome_of_namedOf {t : Dnspod.IpType} (h : NamedOf (recordTarget g) t x) :
    itemOutcome M (recordTarget g) x = storeOutcome M x t := by
  obtain ⟨name, hname⟩ := exists_name_of_named h.1
  obtain ⟨ty, htype, htext⟩ := exists_type_of_namedOf h
  rw [itemOutcome_eq, hname]
  simp only [if_pos h.1, htype, CJson.text, htext, Option.map_some]
  cases t with
  | classIpv4 => rw [if_pos h]
  | classIpv6 =>
    -- the code tests for `A` first
    have h4 : ¬ NamedOf (recordTarget g) .classIpv4 x := fun h4 => by cases h4.unique h
    rw [if_neg h4, if_pos h]

/-- What the decoder does at an item of no family. -/
theorem itemOutcome_of_not_namedOf (h : ∀ t, ¬ NamedOf (recordTarget g) t x) :
    itemOutcome M (recordTarget g) x =
      if (x.lookup (bytes "Name")).isSome ∧
          (Named (recordTarget g) x → (x.lookup (bytes "Type")).isSome) then
        (if Named (recordTarget g) x ∧ ∃ v ∈ x.lookup (bytes "Type"), v.text = none then
          .fault .nullString else .skip)
      else .missing := by
  rw [itemOutcome_eq]
  cases hname : x.lookup (bytes "Name") with
  | none => simp
  | some name =>
    by_cases hn : Named (recordTarget g) x
    · cases htype : x.lookup (bytes "Type") with
      | none => simp [hn]
      | some ty =>
        cases htext : ty.text with
        | none => simp [hn, htext]
        | some s => simp [hn, htext, h]
    · simp [hn]

/-- An item is sound and complete, or sound and incomplete, or unsound; what the
decoder does at it follows. -/
def RecordItemCases (M : Machine) (g : Config) (x : CJson) : Prop :=
  (Decoder.Sound g .recordListFilter x ∧ Decoder.Complete g .recordListFilter x ∧
      (itemOutcome M (recordTarget g) x = .skip ∨ ∃ t r,
        itemOutcome M (recordTarget g) x = .store t r ∧
        ∃ v ∈ x.lookup (bytes "RecordId"), v.isNumber)) ∨
    (Decoder.Sound g .recordListFilter x ∧ ¬ Decoder.Complete g .recordListFilter x ∧
      itemOutcome M (recordTarget g) x = .missing) ∨
    (¬ Decoder.Sound g .recordListFilter x ∧
      (itemOutcome M (recordTarget g) x = .fault .nullString ∨
        (∃ t r, itemOutcome M (recordTarget g) x = .store t r) ∧
        ∀ v ∈ x.lookup (bytes "RecordId"), ¬ v.isNumber))

/-- An item of a family: what happens is up to its `Value` and its `RecordId`. -/
theorem recordItem_cases_of_namedOf {t : Dnspod.IpType} (ht : NamedOf (recordTarget g) t x) :
    RecordItemCases M g x := by
  unfold RecordItemCases
  rw [sound_recordListFilter_iff, complete_recordListFilter_iff]
  obtain ⟨name, hname⟩ := exists_name_of_named ht.1
  obtain ⟨ty, htype, htext⟩ := exists_type_of_namedOf ht
  have hall : ∀ P : Prop, (∀ t', NamedOf (recordTarget g) t' x → P) ↔ P :=
    fun P => ⟨fun h => h t ht, fun h _ _ => h⟩
  have htypes : ∀ v ∈ x.lookup (bytes "Type"), v.text.isSome := by
    intro v hv
    obtain rfl : ty = v := Option.some.inj (htype.symm.trans hv)
    rw [CJson.text, htext]
    rfl
  rw [itemOutcome_of_namedOf ht, storeOutcome_eq, hall, hall]
  cases hvalue : x.lookup (bytes "Value") with
  | none => exact .inr (.inl ⟨⟨fun _ => htypes, by simp, by simp⟩, by simp, rfl⟩)
  | some v =>
    cases hs : v.text with
    | none => exact .inr (.inr ⟨by simp [hs], .inl (by simp [hs])⟩)
    | some s =>
      simp only [hs]
      cases hid : x.lookup (bytes "RecordId") with
      | none => exact .inr (.inl ⟨⟨fun _ => htypes, by simp [hs], by simp⟩, by simp, rfl⟩)
      | some i =>
        cases hnumber : i.isNumber with
        | true =>
          exact .inl ⟨⟨fun _ => htypes, by simp [hs], by simp [hnumber]⟩,
            ⟨by rw [hname]; rfl, fun _ => by rw [htype]; rfl, rfl, rfl⟩,
            .inr ⟨t, _, rfl, i, rfl, hnumber⟩⟩
        | false =>
          exact .inr (.inr ⟨by simp [hnumber], .inr ⟨⟨t, _, rfl⟩, by simp [hnumber]⟩⟩)

/-- Any other item calls for a `Type` at most. -/
theorem recordItem_cases_of_not_namedOf (h : ∀ t, ¬ NamedOf (recordTarget g) t x) :
    RecordItemCases M g x := by
  unfold RecordItemCases
  rw [sound_recordListFilter_iff, complete_recordListFilter_iff, itemOutcome_of_not_namedOf h]
  simp only [h, false_imp_iff, implies_true, and_true]
  split_ifs with hc hfault
  · obtain ⟨hn, v, hv, htext⟩ := hfault
    refine .inr (.inr ⟨fun h => ?_, .inl rfl⟩)
    have hsome := h hn v hv
    rw [htext] at hsome
    cases hsome
  · refine .inl ⟨fun hn v hv => ?_, hc, .inl rfl⟩
    rw [Option.isSome_iff_ne_none]
    exact fun htext => hfault ⟨hn, v, hv, htext⟩
  · -- a name or a type is missing: then there is none of another kind
    refine .inr (.inl ⟨fun hn v hv => absurd ⟨?_, fun _ => ?_⟩ hc, hc, rfl⟩)
    · obtain ⟨name, hname⟩ := exists_name_of_named hn
      rw [hname]
      rfl
    · rw [hv]
      rfl

theorem recordItem_cases (M : Machine) (g : Config) (x : CJson) : RecordItemCases M g x := by
  by_cases h : ∃ t, NamedOf (recordTarget g) t x
  · exact recordItem_cases_of_namedOf h.choose_spec
  · exact recordItem_cases_of_not_namedOf fun t ht => h ⟨t, ht⟩

end RecordItem

/-- The record decoder's body. -/
theorem recordListFilter_itemSpec (M : Machine) (g : Config) :
    ItemSpec (Decoder.body M g .recordListFilter) (bytes "RecordId")
      (Decoder.Complete g .recordListFilter) (Decoder.Sound g .recordListFilter) where
  goesOn x d hs hc := by
    show ∃ d', recordListFilterItem M _ x d = _
    rw [recordListFilterItem_eq]
    rcases recordItem_cases M g x with ⟨-, -, hskip | ⟨t, r, hstore, -⟩⟩ | ⟨-, hc', -⟩ | ⟨hs', -⟩
    · exact ⟨d, by rw [hskip]; rfl⟩
    · exact ⟨d.push t r, by rw [hstore]; rfl⟩
    · exact absurd hc hc'
    · exact absurd hs hs'
  stops x d hs hc := by
    show ∃ d', recordListFilterItem M _ x d = _
    rw [recordListFilterItem_eq]
    rcases recordItem_cases M g x with ⟨-, hc', -⟩ | ⟨-, -, hmissing⟩ | ⟨hs', -⟩
    · exact absurd hc' hc
    · exact ⟨d, by rw [hmissing]; rfl⟩
    · exact absurd hs hs'
  numbered x hs hstores := by
    obtain ⟨t, r, hstore⟩ := exists_store_of_storesId hstores
    rcases recordItem_cases M g x with ⟨-, -, hskip | ⟨_, _, -, hnumber⟩⟩ | ⟨-, -, hmissing⟩ |
      ⟨hs', -⟩
    · rw [hskip] at hstore
      cases hstore
    · exact hnumber
    · rw [hmissing] at hstore
      cases hstore
    · exact absurd hs hs'
  fooled x hs := by
    rcases recordItem_cases M g x with ⟨hs', -⟩ | ⟨hs', -⟩ | ⟨-, hfault | ⟨⟨t, r, hstore⟩, hno⟩⟩
    · exact absurd hs' hs
    · exact absurd hs' hs
    · refine .inl fun d => ?_
      show recordListFilterItem M _ x d = _
      rw [recordListFilterItem_eq, hfault]
      rfl
    · exact .inr ⟨storesId_of_store hstore, hno⟩

/-- Both bodies. -/
theorem Decoder.itemSpec (M : Machine) (g : Config) (dec : Decoder) :
    ItemSpec (dec.body M g) dec.idMember (dec.Complete g) (dec.Sound g) := by
  cases dec with
  | domainList => exact domainList_itemSpec M g
  | recordListFilter => exact recordListFilter_itemSpec M g

end DdnsCloudTencent
