import DdnsCloudTencent.Theory.Decoding

/-!
# The record list as a filter (custom_cloudTencent_response_decode.cpp:66)

A reply seen as data: `CJson.lookup` selects the first member with a name up to
ASCII case, `CJson.text` and `CJson.natural` read a member. `recordsOf` is then
the list of records that a reply holds for the configured name.

- `getObjectItem_eq_lookup`: `tretap_CJson_GetObjectItem` is `lookup`;
- `replyList_of_root`: the list a decoder visits, in terms of the parsed tree;
- `itemOutcome_of_typed`: an item by what it has;
- `recordDecoder_filters`: the record decoder appends `recordsOf`, and succeeds
  exactly on the replies that lack nothing.
-/

namespace DdnsCloudTencent

open Cxx

/-! ## Members of a tree -/

/-- The member that a name selects: the first one up to ASCII case. -/
def CJson.lookup (x : CJson) (name : Bytes) : Option CJson :=
  match x with
  | .object ms => (ms.find? fun m => m.1.toBytes.map tolower == name.map tolower).map Prod.snd
  | _ => none

/-- The text of a `String` node. -/
def CJson.text (x : CJson) : Option Bytes := x.valuestring.map CStr.toBytes

/-- The natural number of a `Number` node. -/
def CJson.natural : CJson → Option Nat
  | .number _ (.finite q) => if q.den = 1 ∧ 0 ≤ q.num then some q.num.toNat else none
  | _ => none

/-- The items of an `Array` node. -/
def CJson.items : CJson → List CJson
  | .array cs => cs
  | _ => []

theorem tolower_ne_zero {c : UInt8} (h : c ≠ 0) : (tolower c).toNat ≠ 0 := by
  have hc : c.toNat ≠ 0 := fun h0 => h (UInt8.toNat_inj.mp h0)
  unfold tolower
  split
  · next hcase =>
    have hle : c.toNat ≤ 90 := UInt8.le_iff_toNat_le.mp hcase.2
    rw [UInt8.toNat_add, show (32 : UInt8).toNat = 32 from rfl]
    omega
  · exact hc

/-- The comparison loop returns 0 on texts that agree up to ASCII case. -/
theorem strcasecmpLoop_eq_zero_iff {s t : Bytes} (hs : 0 ∉ s) (ht : 0 ∉ t) :
    strcasecmpLoop s t = 0 ↔ s.map tolower = t.map tolower := by
  induction s generalizing t with
  | nil =>
    cases t with
    | nil => exact iff_of_true rfl rfl
    | cons d t =>
      have hd : d ≠ 0 := fun h => ht (h ▸ List.mem_cons_self)
      refine iff_of_false (fun h => tolower_ne_zero hd ?_) (by simp)
      rw [strcasecmpLoop] at h
      omega
  | cons c s ih =>
    have hc : c ≠ 0 := fun h => hs (h ▸ List.mem_cons_self)
    cases t with
    | nil =>
      refine iff_of_false (fun h => tolower_ne_zero hc ?_) (by simp)
      rw [strcasecmpLoop] at h
      omega
    | cons d t =>
      rw [strcasecmpLoop]
      by_cases hcd : tolower c = tolower d
      · have hs' : 0 ∉ s := fun h => hs (List.mem_cons_of_mem c h)
        have ht' : 0 ∉ t := fun h => ht (List.mem_cons_of_mem d h)
        rw [if_pos hcd, List.map_cons, List.map_cons, hcd]
        exact (ih hs' ht').trans (List.cons_inj_right _).symm
      · have hne : (tolower c).toNat ≠ (tolower d).toNat := fun h => hcd (UInt8.toNat_inj.mp h)
        rw [if_neg hcd]
        refine iff_of_false (fun h => ?_) (by simp [hcd])
        omega

/-- `tretap_CJson_GetObjectItem` selects the first member up to ASCII case. -/
theorem getObjectItem_eq_lookup (x : CJson) (name : CStr) :
    tretapCJsonGetObjectItem x name = x.lookup name.toBytes := by
  unfold tretapCJsonGetObjectItem CJson.lookup
  cases x with
  | object ms =>
    simp only [CJson.child, List.find?_map, Option.map_map]
    have hpred : ((fun c : Option CStr × CJson => tretapCJsonStrcasecmp c.1 name == 0) ∘
        fun m : CStr × CJson => (some m.1, m.2)) =
        fun m => m.1.toBytes.map tolower == name.toBytes.map tolower := by
      funext m
      rw [Bool.eq_iff_iff, beq_iff_eq]
      exact beq_iff_eq.trans (strcasecmpLoop_eq_zero_iff m.1.noNul name.noNul)
    rw [hpred]
    rfl
  | array cs =>
    -- the items of an array have no name
    simp only [CJson.child, List.find?_map]
    have hnone : cs.find? ((fun c : Option CStr × CJson => tretapCJsonStrcasecmp c.1 name == 0) ∘
        fun c : CJson => (none, c)) = none :=
      List.find?_eq_none.mpr fun c _ => by simp [tretapCJsonStrcasecmp]
    rw [hnone]
    rfl
  | false => rfl
  | true => rfl
  | null => rfl
  | number i d => rfl
  | string s => rfl

theorem key_toBytes {s : String} (h : 0 ∉ bytes s) : (key s).toBytes = bytes s :=
  cStr_toBytes_of_noNul h

theorem CJson.text_eq_some_iff {x : CJson} {s : Bytes} (hs : 0 ∉ s) :
    x.text = some s ↔ x.valuestring = some (cStr s) := by
  rw [CJson.text, Option.map_eq_some_iff]
  constructor
  · rintro ⟨c, hc, rfl⟩
    rw [hc, cStr_toBytes]
  · intro h
    exact ⟨cStr s, h, cStr_toBytes_of_noNul hs⟩

/-- A node with a natural number. -/
theorem eq_number_of_natural {x : CJson} {n : Nat} (h : x.natural = some n) :
    ∃ i, x = .number i (.ofNat n) := by
  cases x with
  | number i d =>
    cases d with
    | finite q =>
      simp only [CJson.natural] at h
      split at h
      · next hq =>
        have hn' : q.num = n := by
          rw [← Option.some.inj h, Int.toNat_of_nonneg hq.2]
        have hqn : q = (n : ℚ) := by
          rw [← Rat.num_div_den q, hq.1, hn']
          simp
        exact ⟨i, by rw [hqn]; rfl⟩
      · cases h
    | inf b => cases h
    | nan => cases h
  | _ => cases h

/-- The id that the record decoder reads from it. -/
theorem toUInt64_of_natural (M : Machine) {x : CJson} {n : Nat} (h : x.natural = some n)
    (hn : n < 2 ^ 53) : M.toUInt64 x.valuedouble = UInt64.ofNat n := by
  obtain ⟨i, rfl⟩ := eq_number_of_natural h
  exact M.toUInt64_ofNat hn

/-- The list that a decoder visits. -/
theorem replyList_of_root {M : Machine} {src : Bytes} {root : CJson}
    (hroot : tretapCJsonParse M (cStr src) = .ok (some root)) {member : String}
    (hmember : 0 ∉ bytes member) :
    replyList M member src =
      .ok (((root.lookup (bytes "Response")).bind (·.lookup (bytes member))).map CJson.items) := by
  unfold replyList
  rw [hroot]
  simp only [getObjectItem_eq_lookup, key_toBytes hmember,
    key_toBytes (show 0 ∉ bytes "Response" by decide)]
  cases root.lookup (bytes "Response") with
  | none => rfl
  | some second =>
    simp only [Option.bind_some]
    cases second.lookup (bytes member) with
    | none => rfl
    | some third =>
      cases third with
      | array cs => simp [CJson.isArray, CJson.child, CJson.items]
      | _ => rfl

/-! ## One item in terms of its members -/

/-- An item whose `Name` is the string `temp`. -/
def Named (temp : CStr) (x : CJson) : Prop :=
  (x.lookup (bytes "Name")).bind CJson.valuestring = some temp

instance (temp : CStr) (x : CJson) : Decidable (Named temp x) :=
  inferInstanceAs (Decidable (_ = _))

/-- An item of that name and of the type of a family. -/
def NamedOf (temp : CStr) (t : Dnspod.IpType) (x : CJson) : Prop :=
  Named temp x ∧ (x.lookup (bytes "Type")).bind CJson.valuestring = some (key t.typeText)

instance (temp : CStr) (t : Dnspod.IpType) (x : CJson) : Decidable (NamedOf temp t x) :=
  inferInstanceAs (Decidable (_ ∧ _))

/-- An item of one family is of no other. -/
theorem NamedOf.unique {temp : CStr} {x : CJson} {t t' : Dnspod.IpType} (h : NamedOf temp t x)
    (h' : NamedOf temp t' x) : t = t' := by
  have htext : key t.typeText = key t'.typeText := Option.some.inj (h.2.symm.trans h'.2)
  cases t <;> cases t' <;> first | rfl | exact absurd htext (by decide)

/-- The outcome of an item of a family. -/
theorem storeOutcome_eq (M : Machine) (x : CJson) (t : Dnspod.IpType) :
    storeOutcome M x t =
      match x.lookup (bytes "Value") with
      | none => .missing
      | some v =>
        match v.text with
        | none => .fault .nullString
        | some value =>
          match x.lookup (bytes "RecordId") with
          | none => .missing
          | some i => .store t ⟨M.toUInt64 i.valuedouble, value, bytes t.typeText⟩ := by
  unfold storeOutcome readRecord CJson.text
  rw [getObjectItem_eq_lookup, getObjectItem_eq_lookup,
    key_toBytes (show 0 ∉ bytes "Value" by decide),
    key_toBytes (show 0 ∉ bytes "RecordId" by decide)]
  cases x.lookup (bytes "Value") with
  | none => rfl
  | some v =>
    simp only
    cases v.valuestring with
    | none => rfl
    | some value =>
      simp only [Option.map_some]
      cases x.lookup (bytes "RecordId") with
      | none => rfl
      | some i => rfl

/-- The outcome of an item of the record list, by its name and its type. -/
theorem itemOutcome_eq (M : Machine) (temp : CStr) (x : CJson) :
    itemOutcome M temp x =
      match x.lookup (bytes "Name") with
      | none => .missing
      | some _ =>
        if Named temp x then
          match x.lookup (bytes "Type") with
          | none => .missing
          | some ty =>
            match ty.text with
            | none => .fault .nullString
            | some _ =>
              if NamedOf temp .classIpv4 x then storeOutcome M x .classIpv4
              else if NamedOf temp .classIpv6 x then storeOutcome M x .classIpv6
              else .skip
        else .skip := by
  unfold itemOutcome
  rw [getObjectItem_eq_lookup, getObjectItem_eq_lookup,
    key_toBytes (show 0 ∉ bytes "Name" by decide), key_toBytes (show 0 ∉ bytes "Type" by decide)]
  cases hname : x.lookup (bytes "Name") with
  | none => rfl
  | some name =>
    have hnamed : name.valuestring = some temp ↔ Named temp x := by rw [Named, hname]; rfl
    simp only [hnamed]
    by_cases htemp : Named temp x
    · rw [if_pos htemp, if_pos htemp]
      cases htype : x.lookup (bytes "Type") with
      | none => rfl
      | some ty =>
        simp only [CJson.text]
        cases hs : ty.valuestring with
        | none => rfl
        | some type =>
          have hof : ∀ t : Dnspod.IpType, type = key t.typeText ↔ NamedOf temp t x := by
            intro t
            rw [NamedOf, htype, Option.bind_some, hs, Option.some_inj, and_iff_right htemp]
          simp only [Option.map_some, ← hof]
          rfl
    · rw [if_neg htemp, if_neg htemp]

/-- `static_cast<uint64_t>(valueint)`. -/
def CJson.wideId (x : CJson) : UInt64 := x.valueint.toInt64.toUInt64

/-- The body of the domain decoder's loop, by the item's members. -/
theorem domainListItem_eq (temp : CStr) (x : CJson) (d : Dnspod) :
    domainListItem temp x d =
      match x.lookup (bytes "Name") with
      | none => .ok (false, d)
      | some _ =>
        if Named temp x then
          match x.lookup (bytes "DomainId") with
          | none => .ok (false, d)
          | some i =>
            match x.lookup (bytes "Grade") with
            | none => .ok (false, { d with domainId := i.wideId })
            | some v =>
              match v.text with
              | none => .error .nullString
              | some grade => .ok (true, { d with domainId := i.wideId, domainGrade := grade })
        else .ok (true, d) := by
  unfold domainListItem
  rw [getObjectItem_eq_lookup, getObjectItem_eq_lookup, getObjectItem_eq_lookup,
    key_toBytes (show 0 ∉ bytes "Name" by decide),
    key_toBytes (show 0 ∉ bytes "DomainId" by decide),
    key_toBytes (show 0 ∉ bytes "Grade" by decide)]
  cases hname : x.lookup (bytes "Name") with
  | none => rfl
  | some name =>
    have hnamed : name.valuestring = some temp ↔ Named temp x := by rw [Named, hname]; rfl
    simp only [hnamed]
    by_cases htemp : Named temp x
    · rw [if_pos htemp, if_pos htemp]
      cases x.lookup (bytes "DomainId") with
      | none => rfl
      | some i =>
        simp only
        cases x.lookup (bytes "Grade") with
        | none => rfl
        | some v =>
          simp only [CJson.text]
          cases v.valuestring with
          | none => rfl
          | some grade => rfl
    · rw [if_neg htemp, if_neg htemp]

/-! ## The records of a reply -/

/-- The name whose records are kept. -/
def target (g : Config) : Bytes := if g.domainSubname = [] then bytes "@" else g.domainSubname

/-- An item named `target`. -/
def Target (g : Config) (x : CJson) : Prop :=
  (x.lookup (bytes "Name")).bind CJson.text = some (target g)

instance (g : Config) (x : CJson) : Decidable (Target g x) :=
  inferInstanceAs (Decidable (_ = _))

/-- An item named `target` with the type of a family. -/
def TargetOf (g : Config) (t : Dnspod.IpType) (x : CJson) : Prop :=
  Target g x ∧ (x.lookup (bytes "Type")).bind CJson.text = some (bytes t.typeText)

instance (g : Config) (t : Dnspod.IpType) (x : CJson) : Decidable (TargetOf g t x) :=
  inferInstanceAs (Decidable (_ ∧ _))

/-- The record of a family that an item holds. -/
def recordOf (g : Config) (t : Dnspod.IpType) (x : CJson) : Option RecordListT :=
  if TargetOf g t x then
    match (x.lookup (bytes "Value")).bind CJson.text,
      (x.lookup (bytes "RecordId")).bind CJson.natural with
    | some value, some id => some ⟨UInt64.ofNat id, value, bytes t.typeText⟩
    | _, _ => none
  else none

/-- The records of a family in a list of items. -/
def recordsOf (g : Config) (t : Dnspod.IpType) (items : List CJson) : List RecordListT :=
  items.filterMap (recordOf g t)

/-- An item has every member that its name and type call for. -/
structure CompleteItem (g : Config) (x : CJson) : Prop where
  name : (x.lookup (bytes "Name")).isSome
  type : Target g x → (x.lookup (bytes "Type")).isSome
  value : ∀ t, TargetOf g t x → (x.lookup (bytes "Value")).isSome
  id : ∀ t, TargetOf g t x → (x.lookup (bytes "RecordId")).isSome

/-- The members of an item that are there have their types. -/
structure TypedItem (g : Config) (x : CJson) : Prop where
  type : Target g x → ∀ v ∈ x.lookup (bytes "Type"), v.text.isSome
  value : ∀ t, TargetOf g t x → ∀ v ∈ x.lookup (bytes "Value"), v.text.isSome
  id : ∀ t, TargetOf g t x → ∀ v ∈ x.lookup (bytes "RecordId"), ∃ n ∈ v.natural, n < 2 ^ 53

theorem recordTarget_eq (g : Config) : recordTarget g = cStr (target g) :=
  (apply_ite cStr _ _ _).symm

theorem named_recordTarget {g : Config} (hg : 0 ∉ g.domainSubname) {x : CJson} :
    Named (recordTarget g) x ↔ Target g x := by
  have htarget : 0 ∉ target g := by
    unfold target
    split
    · decide
    · exact hg
  rw [Named, Target, recordTarget_eq]
  cases x.lookup (bytes "Name") with
  | none => simp
  | some v => exact (CJson.text_eq_some_iff htarget).symm

theorem namedOf_recordTarget {g : Config} (hg : 0 ∉ g.domainSubname) {t : Dnspod.IpType}
    {x : CJson} : NamedOf (recordTarget g) t x ↔ TargetOf g t x := by
  refine and_congr (named_recordTarget hg) ?_
  cases x.lookup (bytes "Type") with
  | none => simp
  | some v => exact (CJson.text_eq_some_iff (noNul_typeText t)).symm

/-! ## Items of the right types -/

section Typed

variable {M : Machine} {g : Config} {x : CJson}

/-- An item of a family, with a value and an id or without. -/
theorem storeOutcome_of_typed (h : TypedItem g x) {t : Dnspod.IpType} (ht : TargetOf g t x) :
    (storeOutcome M x t = .missing ∧ ¬ CompleteItem g x) ∨
      ∃ r, storeOutcome M x t = .store t r ∧ recordOf g t x = some r ∧
        (x.lookup (bytes "Value")).isSome ∧ (x.lookup (bytes "RecordId")).isSome := by
  rw [storeOutcome_eq]
  cases hvalue : x.lookup (bytes "Value") with
  | none =>
    refine .inl ⟨rfl, fun hc => ?_⟩
    have hv := hc.value t ht
    rw [hvalue] at hv
    cases hv
  | some v =>
    obtain ⟨s, hs⟩ := Option.isSome_iff_exists.mp (h.value t ht v hvalue)
    simp only [hs]
    cases hid : x.lookup (bytes "RecordId") with
    | none =>
      refine .inl ⟨rfl, fun hc => ?_⟩
      have hv := hc.id t ht
      rw [hid] at hv
      cases hv
    | some i =>
      -- below 2^53 the double is the integer itself
      obtain ⟨n, hnat, hn⟩ := h.id t ht i hid
      rw [Option.mem_def] at hnat
      refine .inr ⟨⟨UInt64.ofNat n, s, bytes t.typeText⟩, ?_, ?_, rfl, rfl⟩
      · simp only [toUInt64_of_natural M hnat hn]
      · simp [recordOf, ht, hvalue, hid, hs, hnat]

/-- What an item comes to, by what it has: an incomplete one ends the loop, a
complete one is stored as its record if it has one. -/
def TypedOutcome (g : Config) (x : CJson) (o : Outcome) : Prop :=
  (o = .missing ∧ ¬ CompleteItem g x) ∨
    (o.Good ∧ CompleteItem g x ∧ ∀ t r, o = .store t r ↔ recordOf g t x = some r)

theorem typedOutcome_missing (h : ¬ CompleteItem g x) : TypedOutcome g x .missing := .inl ⟨rfl, h⟩

/-- An item that has a name, and a type if it has the configured name, but is of
no family. -/
theorem typedOutcome_skip (hname : (x.lookup (bytes "Name")).isSome)
    (htype : Target g x → (x.lookup (bytes "Type")).isSome) (hno : ∀ t, ¬ TargetOf g t x) :
    TypedOutcome g x .skip := by
  have hcomplete : CompleteItem g x :=
    ⟨hname, htype, fun t ht => absurd ht (hno t), fun t ht => absurd ht (hno t)⟩
  exact .inr ⟨trivial, hcomplete, fun t r => by simp [recordOf, hno t]⟩

/-- An item of a family. -/
theorem typedOutcome_store (hg : 0 ∉ g.domainSubname) (h : TypedItem g x)
    (hname : (x.lookup (bytes "Name")).isSome) (htype : (x.lookup (bytes "Type")).isSome)
    {t : Dnspod.IpType} (ht : TargetOf g t x) : TypedOutcome g x (storeOutcome M x t) := by
  rcases storeOutcome_of_typed h ht with ⟨hmissing, hc⟩ | ⟨r, hstore, hrecord, hvalue, hid⟩
  · rw [hmissing]
    exact typedOutcome_missing hc
  · rw [hstore]
    refine .inr ⟨trivial, ⟨hname, fun _ => htype, fun _ _ => hvalue, fun _ _ => hid⟩,
      fun t' r' => ?_⟩
    constructor
    · intro h'
      cases h'
      exact hrecord
    · -- a record of any family is the one of this family
      intro h'
      have ht' : TargetOf g t' x := by
        by_contra hno
        simp [recordOf, hno] at h'
      obtain rfl := ((namedOf_recordTarget hg).mpr ht).unique ((namedOf_recordTarget hg).mpr ht')
      rw [Option.some.inj (hrecord.symm.trans h')]

/-- An item whose members have their types comes to what it has. -/
theorem itemOutcome_of_typed (hg : 0 ∉ g.domainSubname) (h : TypedItem g x) :
    TypedOutcome g x (itemOutcome M (recordTarget g) x) := by
  rw [itemOutcome_eq]
  simp only [named_recordTarget hg, namedOf_recordTarget hg]
  cases hname : x.lookup (bytes "Name") with
  | none =>
    refine typedOutcome_missing fun hc => ?_
    have hv := hc.name
    rw [hname] at hv
    cases hv
  | some name =>
    have hname' : (x.lookup (bytes "Name")).isSome := by rw [hname]; rfl
    by_cases htarget : Target g x
    · simp only [if_pos htarget]
      cases htype : x.lookup (bytes "Type") with
      | none =>
        refine typedOutcome_missing fun hc => ?_
        have hv := hc.type htarget
        rw [htype] at hv
        cases hv
      | some ty =>
        have htype' : (x.lookup (bytes "Type")).isSome := by rw [htype]; rfl
        obtain ⟨s, hs⟩ := Option.isSome_iff_exists.mp (h.type htarget ty htype)
        simp only [hs]
        split_ifs with h4 h6
        · exact typedOutcome_store hg h hname' htype' h4
        · exact typedOutcome_store hg h hname' htype' h6
        · refine typedOutcome_skip hname' (fun _ => htype') fun t => ?_
          cases t with
          | classIpv4 => exact h4
          | classIpv6 => exact h6
    · simp only [if_neg htarget]
      exact typedOutcome_skip hname' (fun ht => absurd ht htarget) fun t ht => htarget ht.1

end Typed

/-! ## The decoder -/

/-- `Response.RecordList`. -/
def recordList (root : CJson) : Option CJson :=
  (root.lookup (bytes "Response")).bind (·.lookup (bytes "RecordList"))

/-- The items of the reply have their types. -/
def TypedReply (g : Config) (root : CJson) : Prop :=
  ∀ list ∈ recordList root, ∀ x ∈ list.items, TypedItem g x

/-- The reply has a record list, and no item of it lacks a member. -/
def CompleteReply (g : Config) (root : CJson) : Prop :=
  ∃ list ∈ recordList root, ∀ x ∈ list.items, CompleteItem g x

/-- What the decoder stores of a list of good items are its records. -/
theorem stored_of_typed {M : Machine} {g : Config} (hg : 0 ∉ g.domainSubname)
    {items : List CJson} (htyped : ∀ x ∈ items, TypedItem g x)
    (hgood : ∀ x ∈ items, (itemOutcome M (recordTarget g) x).Good) (t : Dnspod.IpType) :
    stored M (recordTarget g) t items = recordsOf g t items := by
  unfold stored recordsOf
  refine List.filterMap_congr fun x hx => Option.ext fun r => ?_
  rcases itemOutcome_of_typed (M := M) hg (htyped x hx) with ⟨hmissing, -⟩ | ⟨-, -, hstore⟩
  · exact absurd (hgood x hx) (by rw [hmissing]; exact id)
  · rw [← hstore t r]
    cases itemOutcome M (recordTarget g) x with
    | store t' r' =>
      simp only [Outcome.store.injEq]
      split_ifs with ht
      · rw [Option.some_inj, and_iff_right ht]
      · exact iff_of_false (by simp) fun h => ht h.1
    | skip => simp
    | missing => simp
    | fault f => simp

/-- **The record decoder is a filter.** On a reply whose members have their types
it returns, with success exactly if nothing is lacking, and then the records of
the configured name, in the order of the reply, are behind what the vectors held. -/
theorem recordDecoder_filters (M : Machine) {g : Config} (hg : 0 ∉ g.domainSubname) {src : Bytes}
    {root : CJson} (hroot : tretapCJsonParse M (cStr src) = .ok (some root))
    (htyped : TypedReply g root) (d : Dnspod) :
    ∃ ret d', tencentcloudDecodeRecordListFilter M g src d = .ok (ret, d') ∧
      (ret = true ↔ CompleteReply g root) ∧
      (ret = true → ∀ list ∈ recordList root, d' =
        { d with
          recordIpv4 := d.recordIpv4 ++ recordsOf g .classIpv4 list.items
          recordIpv6 := d.recordIpv6 ++ recordsOf g .classIpv6 list.items }) := by
  have hlist := replyList_of_root hroot (show 0 ∉ bytes "RecordList" by decide)
  rw [← recordList.eq_def] at hlist
  cases hrecords : recordList root with
  | none =>
    rw [hrecords] at hlist
    refine ⟨false, d, ?_, iff_of_false Bool.false_ne_true ?_, fun h => absurd h Bool.false_ne_true⟩
    · rw [tencentcloudDecodeRecordListFilter, decodeResponse_eq, hlist]
      rfl
    · rintro ⟨list, hmem, -⟩
      rw [hrecords] at hmem
      cases hmem
  | some list =>
    rw [hrecords] at hlist
    have hitems := htyped list hrecords
    -- all items are good, or a first one is incomplete
    rcases good_or_first_bad M (recordTarget g) list.items with
      hgood | ⟨pre, x, post, hsplit, hpre, hx⟩
    · refine ⟨true, _, decode_of_good hlist hgood d, iff_of_true rfl ?_, fun _ list' hmem => ?_⟩
      · refine ⟨list, hrecords, fun x hx => ?_⟩
        rcases itemOutcome_of_typed (M := M) hg (hitems x hx) with ⟨hmissing, -⟩ | ⟨-, hc, -⟩
        · exact absurd (hgood x hx) (by rw [hmissing]; exact id)
        · exact hc
      · obtain rfl : list = list' := Option.some.inj hmem
        rw [Dnspod.addAll, stored_of_typed hg hitems hgood, stored_of_typed hg hitems hgood]
    · have hxmem : x ∈ list.items := by simp [hsplit]
      rcases itemOutcome_of_typed (M := M) hg (hitems x hxmem) with ⟨hmissing, hc⟩ | ⟨hgood, -, -⟩
      · rw [Option.map_some, hsplit] at hlist
        refine ⟨false, _, decode_of_missing hlist hpre hmissing d,
          iff_of_false Bool.false_ne_true ?_, fun h => absurd h Bool.false_ne_true⟩
        rintro ⟨list', hmem, hall⟩
        obtain rfl : list = list' := Option.some.inj (hrecords.symm.trans hmem)
        exact hc (hall x hxmem)
      · exact absurd hgood hx

/-- The node that a text parses to. -/
def parsed (M : Machine) (src : Bytes) : CJson :=
  match tretapCJsonParse M (cStr src) with
  | .ok (some root) => root
  | _ => .null

theorem parse_eq_parsed {M : Machine} {src : Bytes}
    (h : (match tretapCJsonParse M (cStr src) with | .ok (some _) => true | _ => false) = true) :
    tretapCJsonParse M (cStr src) = .ok (some (parsed M src)) := by
  unfold parsed
  split at h
  · next root hroot => rw [hroot]
  · cases h

/-- A reply with one record of each family, an item of another type, and one of
another name without any other member. -/
def mixedReply : Bytes :=
  bytes "\x7b\"response\":\x7b\"RecordList\":[
    \x7b\"Name\":\"www\",\"Type\":\"AAAA\",\"Value\":\"2001:db8::1\",\"RecordId\":9\x7d,
    \x7b\"Name\":\"mail\"\x7d,
    \x7b\"Name\":\"www\",\"Type\":\"TXT\"\x7d,
    \x7b\"NAME\":\"www\",\"Type\":\"A\",\"Value\":\"192.0.2.1\",\"RecordId\":4294967303\x7d
  ]\x7d\x7d"

/-- A configuration for the name `www`. -/
def wwwConfig : Config := { Config.empty with domainSubname := bytes "www" }

/-- The decoder succeeds on it. -/
theorem recordDecoder_filters_mixed :
    let M := (replyEnv []).machine
    ∃ d', tencentcloudDecodeRecordListFilter M wwwConfig mixedReply (Dnspod.new []) =
        .ok (true, d') ∧
      d'.recordIpv4 = [⟨4294967303, bytes "192.0.2.1", bytes "A"⟩] ∧
      d'.recordIpv6 = [⟨9, bytes "2001:db8::1", bytes "AAAA"⟩] := by
  intro M
  have hroot : tretapCJsonParse M (cStr mixedReply) = .ok (some (parsed M mixedReply)) :=
    parse_eq_parsed (by decide +kernel)
  have hitems : ∃ list ∈ recordList (parsed M mixedReply),
      (∀ x ∈ list.items, (x.lookup (bytes "Name")).isSome ∧
        (Target wwwConfig x → (x.lookup (bytes "Type")).isSome) ∧
        (TargetOf wwwConfig .classIpv4 x ∨ TargetOf wwwConfig .classIpv6 x →
          (x.lookup (bytes "Value")).isSome ∧ (x.lookup (bytes "RecordId")).isSome) ∧
        (Target wwwConfig x → ∀ v ∈ x.lookup (bytes "Type"), v.text.isSome) ∧
        (∀ v ∈ x.lookup (bytes "Value"), v.text.isSome) ∧
        ∀ v ∈ x.lookup (bytes "RecordId"), ∃ n ∈ v.natural, n < 2 ^ 53) ∧
      recordsOf wwwConfig .classIpv4 list.items =
        [⟨4294967303, bytes "192.0.2.1", bytes "A"⟩] ∧
      recordsOf wwwConfig .classIpv6 list.items =
        [⟨9, bytes "2001:db8::1", bytes "AAAA"⟩] := by decide +kernel
  obtain ⟨list, hlist, hmembers, h4, h6⟩ := hitems
  have htyped : TypedReply wwwConfig (parsed M mixedReply) := by
    intro list' hlist' x hx
    obtain rfl : list = list' := Option.some.inj (hlist.symm.trans hlist')
    obtain ⟨-, -, -, htype, hvalue, hid⟩ := hmembers x hx
    exact ⟨htype, fun _ _ => hvalue, fun _ _ => hid⟩
  have hcomplete : CompleteReply wwwConfig (parsed M mixedReply) := by
    refine ⟨list, hlist, fun x hx => ?_⟩
    obtain ⟨hname, htype, hrest, -⟩ := hmembers x hx
    have hfamily : ∀ t, TargetOf wwwConfig t x →
        TargetOf wwwConfig .classIpv4 x ∨ TargetOf wwwConfig .classIpv6 x := by
      intro t h
      cases t with
      | classIpv4 => exact .inl h
      | classIpv6 => exact .inr h
    exact ⟨hname, htype, fun t h => (hrest (hfamily t h)).1, fun t h => (hrest (hfamily t h)).2⟩
  obtain ⟨ret, d', hdecode, hret, hstored⟩ :=
    recordDecoder_filters M (g := wwwConfig) (by decide) hroot htyped (Dnspod.new [])
  obtain rfl : ret = true := hret.mpr hcomplete
  refine ⟨d', hdecode, ?_⟩
  rw [hstored rfl list hlist, h4, h6]
  exact ⟨rfl, rfl⟩

end DdnsCloudTencent
