import DdnsCloudTencent.Theory.Requests

/-!
# What the reply decoders store

A decoder visits the items of one list of the reply, and an item of the record
list has one of four outcomes, whatever the object holds (`itemOutcome`): it is
passed over, stored, found to lack a member, or faulted on.

- `decodeResponse_eq`: a decoder is `visit` over the items of the list;
- `visit_append`: the items before the first bad one are stored;
- `decode_false_unchanged_iff`: a call that fails has stored something exactly
  when a record stands before the first item that lacks a member (`Torn`);
- `Stores.sound`: what is stored was read from one matching item.
-/

namespace DdnsCloudTencent

open Cxx

/-! ## The list a decoder visits -/

/-- The items of `Response.<member>`: `none` where the decoder returns `false`
before its loop, no items where the member is not an array. -/
def replyList (M : Machine) (member : String) (src : Bytes) :
    Except Fault (Option (List CJson)) :=
  match tretapCJsonParse M (cStr src) with
  | .error f => .error f
  | .ok none => .ok none
  | .ok (some root) =>
    match tretapCJsonGetObjectItem root (key "Response") with
    | none => .ok none
    | some second =>
      match tretapCJsonGetObjectItem second (key member) with
      | none => .ok none
      | some third => .ok (some (if third.isArray then third.child.map Prod.snd else []))

/-- The items a decoder can come across. -/
def replyItems (M : Machine) (member : String) (src : Bytes) : List CJson :=
  match replyList M member src with
  | .ok (some items) => items
  | _ => []

/-- The loop of a decoder, over the items themselves. -/
def visit (body : CJson → Dnspod → Decoded) : List CJson → Dnspod → Decoded
  | [], d => .ok (true, d)
  | x :: xs, d =>
    match body x d with
    | .ok (true, d) => visit body xs d
    | r => r

/-- Indexing the array at `0, 1, …` gives its items, and never a NULL one. -/
theorem itemLoop_eq_visit (body : CJson → Dnspod → Decoded) (third : CJson) (d : Dnspod) :
    itemLoop body third (List.range (tretapCJsonGetArraySize third)) d =
      visit body (third.child.map Prod.snd) d := by
  have hfrom : ∀ (xs pre : List CJson) (d : Dnspod), third.child.map Prod.snd = pre ++ xs →
      itemLoop body third (List.range' pre.length xs.length) d = visit body xs d := by
    intro xs
    induction xs with
    | nil => exact fun _ _ _ => rfl
    | cons x xs ih =>
      intro pre d h
      have hitem : tretapCJsonGetArrayItem third pre.length = some x := by
        rw [tretapCJsonGetArrayItem, ← List.getElem?_map, h, List.getElem?_append_right le_rfl,
          Nat.sub_self]
        rfl
      have hnext : third.child.map Prod.snd = (pre ++ [x]) ++ xs := by
        rw [h, List.append_assoc]
        rfl
      rw [List.length_cons, List.range'_succ, itemLoop, visit]
      -- the index is in range, so there is an item
      simp only [hitem]
      cases body x d with
      | error f => rfl
      | ok r =>
        obtain ⟨b, d'⟩ := r
        cases b with
        | false => rfl
        | true => simpa using ih (pre ++ [x]) d' hnext
  have h := hfrom (third.child.map Prod.snd) [] d rfl
  rwa [List.length_map, List.length_nil, ← List.range_eq_range'] at h

/-- A decoder is a visit of the reply's list. -/
theorem decodeResponse_eq (M : Machine) (member : String) (body : CJson → Dnspod → Decoded)
    (src : Bytes) (d : Dnspod) :
    decodeResponse M member body src d =
      match replyList M member src with
      | .error f => .error f
      | .ok none => .ok (false, d)
      | .ok (some items) => visit body items d := by
  unfold decodeResponse replyList
  cases tretapCJsonParse M (cStr src) with
  | error f => rfl
  | ok root =>
    cases root with
    | none => rfl
    | some root =>
      cases hsecond : tretapCJsonGetObjectItem root (key "Response") with
      | none => simp only [hsecond]
      | some second =>
        cases hthird : tretapCJsonGetObjectItem second (key member) with
        | none => simp only [hsecond, hthird]
        | some third =>
          simp only [hsecond, hthird]
          cases third.isArray with
          | false => rfl
          | true => exact itemLoop_eq_visit body third d

/-- What every item keeps, their visit keeps. -/
theorem visit_preserves {body : CJson → Dnspod → Decoded} {P : Dnspod → Prop} {xs : List CJson}
    (hbody : ∀ x ∈ xs, ∀ d b d', P d → body x d = .ok (b, d') → P d')
    {d d' : Dnspod} {b : Bool} (hd : P d) (h : visit body xs d = .ok (b, d')) : P d' := by
  induction xs generalizing d with
  | nil =>
    cases h
    exact hd
  | cons x xs ih =>
    rw [visit] at h
    cases hx : body x d with
    | error f =>
      rw [hx] at h
      cases h
    | ok r =>
      obtain ⟨b', d''⟩ := r
      have hd'' : P d'' := hbody x List.mem_cons_self d b' d'' hd hx
      rw [hx] at h
      cases b' with
      | false =>
        cases h
        exact hd''
      | true => exact ih (fun y hy => hbody y (List.mem_cons_of_mem x hy)) hd'' h

/-- What every visited item keeps, the decoder keeps. -/
theorem decodeResponse_preserves {M : Machine} {member : String}
    {body : CJson → Dnspod → Decoded} {src : Bytes} {P : Dnspod → Prop}
    (hbody : ∀ x ∈ replyItems M member src, ∀ d b d', P d → body x d = .ok (b, d') → P d')
    {d d' : Dnspod} {b : Bool} (hd : P d)
    (h : decodeResponse M member body src d = .ok (b, d')) : P d' := by
  unfold replyItems at hbody
  rw [decodeResponse_eq] at h
  cases hlist : replyList M member src with
  | error f =>
    rw [hlist] at h
    cases h
  | ok r =>
    rw [hlist] at h hbody
    cases r with
    | none =>
      cases h
      exact hd
    | some items => exact visit_preserves hbody hd h

/-- The domain decoder writes the id and the grade of the domain only, and a
grade that it writes is a C string. -/
structure DomainFrame (d d' : Dnspod) : Prop where
  rest : d' = { d with domainId := d'.domainId, domainGrade := d'.domainGrade }
  grade : 0 ∉ d.domainGrade → 0 ∉ d'.domainGrade

theorem domainListItem_frame {temp : CStr} {x : CJson} {d d' : Dnspod} {b : Bool}
    (h : domainListItem temp x d = .ok (b, d')) : DomainFrame d d' := by
  unfold domainListItem at h
  split at h
  · cases h; exact ⟨rfl, id⟩
  · split at h
    · split at h
      · cases h; exact ⟨rfl, id⟩
      · simp only at h
        split at h
        · cases h; exact ⟨rfl, id⟩
        · split at h
          · cases h
          · next grade _ => cases h; exact ⟨rfl, fun _ => grade.noNul⟩
    · cases h; exact ⟨rfl, id⟩

theorem decodeDomainList_frame {M : Machine} {g : Config} {src : Bytes} {d d' : Dnspod} {b : Bool}
    (h : tencentcloudDecodeDomainList M g src d = .ok (b, d')) : DomainFrame d d' := by
  have hstart : DomainFrame d d := ⟨rfl, id⟩
  refine decodeResponse_preserves ?_ hstart h
  intro x _ d₁ b₁ d₂ hd₁ hbody
  have hitem := domainListItem_frame hbody
  refine ⟨?_, fun h0 => hitem.grade (hd₁.grade h0)⟩
  rw [hitem.rest, hd₁.rest]

/-! ## One item of the record list -/

/-- The `Type` text of a family. -/
def Dnspod.IpType.typeText : Dnspod.IpType → String
  | .classIpv4 => "A"
  | .classIpv6 => "AAAA"

theorem noNul_typeText (t : Dnspod.IpType) : 0 ∉ bytes t.typeText := by cases t <;> decide

/-- What an item of the record list comes to. -/
inductive Outcome where
  /-- Another name or another type. -/
  | skip
  /-- A record for one of the vectors. -/
  | store (t : Dnspod.IpType) (r : RecordListT)
  /-- A member that is looked up is not there: the decoder returns `false`. -/
  | missing
  | fault (f : Fault)
deriving DecidableEq

/-- What an outcome does to the object. -/
def Outcome.apply (d : Dnspod) : Outcome → Decoded
  | .skip => .ok (true, d)
  | .store t r => .ok (true, d.push t r)
  | .missing => .ok (false, d)
  | .fault f => .error f

/-- The loop goes on. -/
def Outcome.Good : Outcome → Prop
  | .skip | .store _ _ => True
  | .missing | .fault _ => False

instance : DecidablePred Outcome.Good := fun o => by
  cases o <;> unfold Outcome.Good <;> infer_instance

/-- The outcome of an item of the right name and type. -/
def storeOutcome (M : Machine) (x : CJson) (t : Dnspod.IpType) : Outcome :=
  match readRecord M x (bytes t.typeText) with
  | .error f => .fault f
  | .ok none => .missing
  | .ok (some r) => .store t r

/-- The outcome of an item, `temp` being the name looked for. -/
def itemOutcome (M : Machine) (temp : CStr) (x : CJson) : Outcome :=
  match tretapCJsonGetObjectItem x (key "Name") with
  | none => .missing
  | some name =>
    if name.valuestring = some temp then
      match tretapCJsonGetObjectItem x (key "Type") with
      | none => .missing
      | some type =>
        match type.valuestring with
        | none => .fault .nullString
        | some type =>
          if type = key "A" then storeOutcome M x .classIpv4
          else if type = key "AAAA" then storeOutcome M x .classIpv6
          else .skip
    else .skip

theorem recordBlock_self (M : Machine) (x : CJson) (t : Dnspod.IpType) (d : Dnspod) :
    recordBlock M x (key t.typeText) t.typeText t d = (storeOutcome M x t).apply d := by
  rw [recordBlock, if_pos rfl, storeOutcome]
  cases readRecord M x (bytes t.typeText) with
  | error f => rfl
  | ok r => cases r <;> rfl

/-- The body of the decoder's loop applies the outcome. -/
theorem recordListFilterItem_eq (M : Machine) (temp : CStr) (x : CJson) (d : Dnspod) :
    recordListFilterItem M temp x d = (itemOutcome M temp x).apply d := by
  have hne : key "A" ≠ key "AAAA" := by decide
  have hother : ∀ (type : CStr) (t : Dnspod.IpType) (d : Dnspod), type ≠ key t.typeText →
      recordBlock M x type t.typeText t d = .ok (true, d) :=
    fun type t d h => if_neg h
  unfold recordListFilterItem itemOutcome
  cases hname : tretapCJsonGetObjectItem x (key "Name") with
  | none => rfl
  | some name =>
    simp only
    by_cases htemp : name.valuestring = some temp
    · rw [if_pos htemp, if_pos htemp]
      cases htype : tretapCJsonGetObjectItem x (key "Type") with
      | none => rfl
      | some type =>
        simp only
        cases type.valuestring with
        | none => rfl
        | some type =>
          simp only
          by_cases h4 : type = key "A"
          · -- an `A` item: the second block is not entered
            rw [if_pos h4, h4]
            show (match recordBlock M x (key "A") "A" .classIpv4 d with
              | .ok (true, d) => recordBlock M x (key "A") "AAAA" .classIpv6 d
              | r => r) = _
            rw [show recordBlock M x (key "A") "A" .classIpv4 d =
              (storeOutcome M x .classIpv4).apply d from recordBlock_self M x .classIpv4 d]
            cases storeOutcome M x .classIpv4 with
            | skip => exact hother (key "A") .classIpv6 d hne
            | store t r => exact hother (key "A") .classIpv6 _ hne
            | missing => rfl
            | fault f => rfl
          · rw [if_neg h4, show recordBlock M x type "A" .classIpv4 d = .ok (true, d) from
              hother type .classIpv4 d h4]
            by_cases h6 : type = key "AAAA"
            · rw [if_pos h6, h6]
              exact recordBlock_self M x .classIpv6 d
            · rw [if_neg h6]
              exact hother type .classIpv6 d h6
    · rw [if_neg htemp, if_neg htemp]
      rfl

/-! ## The object after a decoder call -/

/-- The records of a family that a list of items comes to. -/
def stored (M : Machine) (temp : CStr) (t : Dnspod.IpType) (xs : List CJson) :
    List RecordListT :=
  xs.filterMap fun x => match itemOutcome M temp x with
    | .store t' r => if t' = t then some r else none
    | _ => none

/-- The object with the records of a list of items behind what it held. -/
def Dnspod.addAll (d : Dnspod) (M : Machine) (temp : CStr) (xs : List CJson) : Dnspod :=
  { d with
    recordIpv4 := d.recordIpv4 ++ stored M temp .classIpv4 xs
    recordIpv6 := d.recordIpv6 ++ stored M temp .classIpv6 xs }

theorem record_addAll (d : Dnspod) (M : Machine) (temp : CStr) (xs : List CJson)
    (t : Dnspod.IpType) : (d.addAll M temp xs).record t = d.record t ++ stored M temp t xs := by
  cases t <;> rfl

theorem addAll_nil (d : Dnspod) (M : Machine) (temp : CStr) : d.addAll M temp [] = d := by
  simp [Dnspod.addAll, stored]

theorem addAll_addAll (d : Dnspod) (M : Machine) (temp : CStr) (xs ys : List CJson) :
    (d.addAll M temp xs).addAll M temp ys = d.addAll M temp (xs ++ ys) := by
  simp [Dnspod.addAll, stored, List.filterMap_append, List.append_assoc]

/-- A good outcome adds its item and lets the loop go on. -/
theorem apply_of_good {M : Machine} {temp : CStr} {x : CJson} (h : (itemOutcome M temp x).Good)
    (d : Dnspod) : (itemOutcome M temp x).apply d = .ok (true, d.addAll M temp [x]) := by
  cases hx : itemOutcome M temp x with
  | skip => simp [Outcome.apply, Dnspod.addAll, stored, hx]
  | store t r => cases t <;> simp [Outcome.apply, Dnspod.push, Dnspod.addAll, stored, hx]
  | missing => rw [hx] at h; exact h.elim
  | fault f => rw [hx] at h; exact h.elim

/-- The items before the first bad one are stored. -/
theorem visit_append {M : Machine} {temp : CStr} {pre : List CJson}
    (hpre : ∀ x ∈ pre, (itemOutcome M temp x).Good) (rest : List CJson) (d : Dnspod) :
    visit (recordListFilterItem M temp) (pre ++ rest) d =
      visit (recordListFilterItem M temp) rest (d.addAll M temp pre) := by
  induction pre generalizing d with
  | nil => rw [addAll_nil, List.nil_append]
  | cons x pre ih =>
    have hx : (itemOutcome M temp x).Good := hpre x List.mem_cons_self
    have hrest := ih (fun y hy => hpre y (List.mem_cons_of_mem x hy)) (d.addAll M temp [x])
    rw [addAll_addAll] at hrest
    rw [List.cons_append, visit, recordListFilterItem_eq, apply_of_good hx]
    exact hrest

/-- Either every item is good, or there is a first bad one. -/
theorem good_or_first_bad (M : Machine) (temp : CStr) (xs : List CJson) :
    (∀ x ∈ xs, (itemOutcome M temp x).Good) ∨
      ∃ pre x post, xs = pre ++ x :: post ∧ (∀ y ∈ pre, (itemOutcome M temp y).Good) ∧
        ¬ (itemOutcome M temp x).Good := by
  induction xs with
  | nil => exact .inl fun x hx => absurd hx List.not_mem_nil
  | cons x xs ih =>
    by_cases hx : (itemOutcome M temp x).Good
    · rcases ih with hall | ⟨pre, y, post, rfl, hpre, hy⟩
      · exact .inl (List.forall_mem_cons.mpr ⟨hx, hall⟩)
      · exact .inr ⟨x :: pre, y, post, rfl, List.forall_mem_cons.mpr ⟨hx, hpre⟩, hy⟩
    · exact .inr ⟨[], x, xs, rfl, fun y hy => absurd hy List.not_mem_nil, hx⟩

/-- A list of good items is stored whole. -/
theorem decode_of_good {M : Machine} {g : Config} {src : Bytes} {items : List CJson}
    (hlist : replyList M "RecordList" src = .ok (some items))
    (hgood : ∀ x ∈ items, (itemOutcome M (recordTarget g) x).Good) (d : Dnspod) :
    tencentcloudDecodeRecordListFilter M g src d =
      .ok (true, d.addAll M (recordTarget g) items) := by
  have h := visit_append hgood [] d
  rw [List.append_nil] at h
  rw [tencentcloudDecodeRecordListFilter, decodeResponse_eq, hlist]
  exact h

/-- Up to an item that lacks a member the list is stored, and the call fails. -/
theorem decode_of_missing {M : Machine} {g : Config} {src : Bytes} {pre post : List CJson}
    {x : CJson} (hlist : replyList M "RecordList" src = .ok (some (pre ++ x :: post)))
    (hpre : ∀ y ∈ pre, (itemOutcome M (recordTarget g) y).Good)
    (hx : itemOutcome M (recordTarget g) x = .missing) (d : Dnspod) :
    tencentcloudDecodeRecordListFilter M g src d =
      .ok (false, d.addAll M (recordTarget g) pre) := by
  rw [tencentcloudDecodeRecordListFilter, decodeResponse_eq, hlist]
  show visit _ _ _ = _
  rw [visit_append hpre, visit, recordListFilterItem_eq, hx]
  rfl

/-- At an item that the decoder faults on there is no object left. -/
theorem decode_of_fault {M : Machine} {g : Config} {src : Bytes} {pre post : List CJson}
    {x : CJson} {f : Fault} (hlist : replyList M "RecordList" src = .ok (some (pre ++ x :: post)))
    (hpre : ∀ y ∈ pre, (itemOutcome M (recordTarget g) y).Good)
    (hx : itemOutcome M (recordTarget g) x = .fault f) (d : Dnspod) :
    tencentcloudDecodeRecordListFilter M g src d = .error f := by
  rw [tencentcloudDecodeRecordListFilter, decodeResponse_eq, hlist]
  show visit _ _ _ = _
  rw [visit_append hpre, visit, recordListFilterItem_eq, hx]
  rfl

/-! ## Failing calls -/

/-- In the reply's list a record to store stands before the first item that
lacks a member, with no item between that the decoder faults on. -/
def Torn (M : Machine) (g : Config) (src : Bytes) : Prop :=
  ∃ pre x post, replyItems M "RecordList" src = pre ++ x :: post ∧
    (∀ y ∈ pre, (itemOutcome M (recordTarget g) y).Good) ∧
    itemOutcome M (recordTarget g) x = .missing ∧
    ∃ y ∈ pre, ∃ t r, itemOutcome M (recordTarget g) y = .store t r

theorem replyItems_of_replyList {M : Machine} {member : String} {src : Bytes}
    {items : List CJson} (h : replyList M member src = .ok (some items)) :
    replyItems M member src = items := by
  rw [replyItems, h]

/-- Items of a nonempty list come from a list. -/
theorem replyList_of_replyItems {M : Machine} {member : String} {src : Bytes}
    {items : List CJson} (h : replyItems M member src = items) (hne : items ≠ []) :
    replyList M member src = .ok (some items) := by
  unfold replyItems at h
  split at h
  · next heq => rw [heq, h]
  · exact absurd h.symm hne

theorem mem_stored {M : Machine} {temp : CStr} {t : Dnspod.IpType} {xs : List CJson}
    {r : RecordListT} : r ∈ stored M temp t xs ↔ ∃ x ∈ xs, itemOutcome M temp x = .store t r := by
  unfold stored
  rw [List.mem_filterMap]
  constructor
  · rintro ⟨x, hx, h⟩
    refine ⟨x, hx, ?_⟩
    cases ho : itemOutcome M temp x with
    | store t' r' =>
      simp only [ho] at h
      split at h
      · next ht =>
        rw [ht, Option.some.inj h]
      · cases h
    | skip => simp [ho] at h
    | missing => simp [ho] at h
    | fault f => simp [ho] at h
  · rintro ⟨x, hx, h⟩
    refine ⟨x, hx, ?_⟩
    simp [h]

/-- A call that fails leaves the vectors alone exactly if the reply is not torn. -/
theorem decode_false_unchanged_iff (M : Machine) (g : Config) (src : Bytes) (d : Dnspod) :
    (∀ d', tencentcloudDecodeRecordListFilter M g src d = .ok (false, d') →
        ∀ t, d'.record t = d.record t) ↔ ¬ Torn M g src := by
  constructor
  · rintro h ⟨pre, x, post, hitems, hpre, hx, y, hy, t, r, hstore⟩
    have hlist := replyList_of_replyItems hitems (by simp)
    have hsame := h _ (decode_of_missing hlist hpre hx d) t
    rw [record_addAll] at hsame
    have hmem : r ∈ stored M (recordTarget g) t pre := mem_stored.mpr ⟨y, hy, hstore⟩
    rw [List.append_right_eq_self.mp hsame] at hmem
    exact List.not_mem_nil hmem
  · intro h d' hdecode t
    cases hlist : replyList M "RecordList" src with
    | error f =>
      rw [tencentcloudDecodeRecordListFilter, decodeResponse_eq, hlist] at hdecode
      cases hdecode
    | ok r =>
      cases r with
      | none =>
        rw [tencentcloudDecodeRecordListFilter, decodeResponse_eq, hlist] at hdecode
        cases hdecode
        rfl
      | some items =>
        rcases good_or_first_bad M (recordTarget g) items with
          hgood | ⟨pre, x, post, rfl, hpre, hx⟩
        · rw [decode_of_good hlist hgood] at hdecode
          cases hdecode
        -- a call that fails has met an item that lacks a member
        · cases ho : itemOutcome M (recordTarget g) x with
          | skip => rw [ho] at hx; exact absurd trivial hx
          | store t r => rw [ho] at hx; exact absurd trivial hx
          | fault f =>
            rw [decode_of_fault hlist hpre ho] at hdecode
            cases hdecode
          | missing =>
            rw [decode_of_missing hlist hpre ho] at hdecode
            cases hdecode
            have hnone : stored M (recordTarget g) t pre = [] := by
              refine List.eq_nil_iff_forall_not_mem.mpr fun r hr => ?_
              obtain ⟨y, hy, hstore⟩ := mem_stored.mp hr
              exact h ⟨pre, x, post, replyItems_of_replyList hlist, hpre, ho, y, hy, t, r, hstore⟩
            rw [record_addAll, hnone, List.append_nil]

/-! ## Where the stored records come from -/

/-- The record of a family that one item of the list describes. -/
structure RecordOf (M : Machine) (temp : CStr) (t : Dnspod.IpType) (x : CJson)
    (r : RecordListT) : Prop where
  name : ∃ n, tretapCJsonGetObjectItem x (key "Name") = some n ∧ n.valuestring = some temp
  typeOf : ∃ ty, tretapCJsonGetObjectItem x (key "Type") = some ty ∧
    ty.valuestring = some (key t.typeText)
  value : ∃ v s, tretapCJsonGetObjectItem x (key "Value") = some v ∧ v.valuestring = some s ∧
    r.value = s.toBytes
  id : ∃ i, tretapCJsonGetObjectItem x (key "RecordId") = some i ∧
    r.id = M.toUInt64 i.valuedouble
  type : r.type = bytes t.typeText

theorem readRecord_eq_some_iff {M : Machine} {x : CJson} {type : Bytes} {r : RecordListT} :
    readRecord M x type = .ok (some r) ↔
      (∃ v s, tretapCJsonGetObjectItem x (key "Value") = some v ∧ v.valuestring = some s ∧
        r.value = s.toBytes) ∧
      (∃ i, tretapCJsonGetObjectItem x (key "RecordId") = some i ∧
        r.id = M.toUInt64 i.valuedouble) ∧ r.type = type := by
  obtain ⟨id, value, type'⟩ := r
  unfold readRecord
  cases hv : tretapCJsonGetObjectItem x (key "Value") with
  | none => simp
  | some v =>
    simp only
    cases hs : v.valuestring with
    | none => simp [hs]
    | some s =>
      simp only
      cases hi : tretapCJsonGetObjectItem x (key "RecordId") with
      | none => simp
      | some i =>
        constructor
        · intro h
          cases h
          exact ⟨⟨v, s, rfl, hs, rfl⟩, ⟨i, rfl, rfl⟩, rfl⟩
        · rintro ⟨⟨v', s', hv', hs', hvalue⟩, ⟨i', hi', hid⟩, htype⟩
          cases hv'
          cases hi'
          rw [hs] at hs'
          cases hs'
          rw [show value = s.toBytes from hvalue, show id = _ from hid,
            show type' = type from htype]

theorem storeOutcome_eq_store_iff {M : Machine} {x : CJson} {t t' : Dnspod.IpType}
    {r : RecordListT} :
    storeOutcome M x t' = .store t r ↔
      t' = t ∧ readRecord M x (bytes t.typeText) = .ok (some r) := by
  unfold storeOutcome
  by_cases ht : t' = t
  · subst ht
    cases readRecord M x (bytes t'.typeText) with
    | error f => simp
    | ok o => cases o <;> simp
  · cases readRecord M x (bytes t'.typeText) with
    | error f => simp [ht]
    | ok o => cases o <;> simp [ht]

theorem recordOf_of_store {M : Machine} {temp : CStr} {x : CJson} {t : Dnspod.IpType}
    {r : RecordListT} (h : itemOutcome M temp x = .store t r) : RecordOf M temp t x r := by
  unfold itemOutcome at h
  split at h
  · cases h
  · next n hn =>
    split at h
    · next htemp =>
      split at h
      · cases h
      · next ty hty =>
        split at h
        · cases h
        · next type htype =>
          -- the type decides the family
          have hread : type = key t.typeText ∧ readRecord M x (bytes t.typeText) =
              .ok (some r) := by
            split at h
            · next h4 =>
              obtain ⟨rfl, hr⟩ := storeOutcome_eq_store_iff.mp h
              exact ⟨h4, hr⟩
            · split at h
              · next h6 =>
                obtain ⟨rfl, hr⟩ := storeOutcome_eq_store_iff.mp h
                exact ⟨h6, hr⟩
              · cases h
          obtain ⟨hvalue, hid, hrt⟩ := readRecord_eq_some_iff.mp hread.2
          exact ⟨⟨n, hn, htemp⟩, ⟨ty, hty, htype.trans (congrArg some hread.1)⟩, hvalue, hid, hrt⟩
    · cases h

/-- An item is stored as the record that it describes. -/
theorem itemOutcome_eq_store_iff {M : Machine} {temp : CStr} {x : CJson} {t : Dnspod.IpType}
    {r : RecordListT} : itemOutcome M temp x = .store t r ↔ RecordOf M temp t x r := by
  constructor
  · exact recordOf_of_store
  · intro h
    obtain ⟨n, hn, htemp⟩ := h.name
    obtain ⟨ty, hty, htype⟩ := h.typeOf
    have hne : key "AAAA" ≠ key "A" := by decide
    have hstore : storeOutcome M x t = .store t r :=
      storeOutcome_eq_store_iff.mpr ⟨rfl, readRecord_eq_some_iff.mpr ⟨h.value, h.id, h.type⟩⟩
    unfold itemOutcome
    simp only [hn, htemp, hty, htype, if_true]
    cases t with
    | classIpv4 => exact (if_pos rfl).trans hstore
    | classIpv6 => exact (if_neg hne).trans ((if_pos rfl).trans hstore)

/-- The record decoder writes the two vectors only. -/
structure VectorFrame (d d' : Dnspod) : Prop where
  rest : d' = { d with recordIpv4 := d'.recordIpv4, recordIpv6 := d'.recordIpv6 }

/-- What storing a record of the reply keeps, the record decoder keeps. -/
theorem decodeRecordListFilter_preserves {M : Machine} {g : Config} {src : Bytes}
    {P : Dnspod → Prop}
    (hstore : ∀ x ∈ replyItems M "RecordList" src, ∀ t r d, P d →
      RecordOf M (recordTarget g) t x r → P (d.push t r))
    {d d' : Dnspod} {b : Bool} (hd : P d)
    (h : tencentcloudDecodeRecordListFilter M g src d = .ok (b, d')) : P d' := by
  refine decodeResponse_preserves ?_ hd h
  intro x hx d₁ b₁ d₂ hd₁ hbody
  rw [recordListFilterItem_eq] at hbody
  cases ho : itemOutcome M (recordTarget g) x with
  | skip =>
    rw [ho] at hbody
    cases hbody
    exact hd₁
  | missing =>
    rw [ho] at hbody
    cases hbody
    exact hd₁
  | fault f =>
    rw [ho] at hbody
    cases hbody
  | store t r =>
    rw [ho] at hbody
    cases hbody
    exact hstore x hx t r d₁ hd₁ (recordOf_of_store ho)

theorem decodeRecordListFilter_frame {M : Machine} {g : Config} {src : Bytes} {d d' : Dnspod}
    {b : Bool} (h : tencentcloudDecodeRecordListFilter M g src d = .ok (b, d')) :
    VectorFrame d d' := by
  have hstart : VectorFrame d d := ⟨rfl⟩
  refine decodeRecordListFilter_preserves (fun x _ t r d₁ hd₁ _ => ⟨?_⟩) hstart h
  rw [hd₁.rest]
  cases t <;> rfl

/-- Every entry of the vectors describes one of the items. -/
def Dnspod.Sourced (M : Machine) (g : Config) (items : List CJson) (d : Dnspod) : Prop :=
  ∀ t, ∀ r ∈ d.record t, ∃ x ∈ items, RecordOf M (recordTarget g) t x r

theorem mem_record_push {d : Dnspod} {t t' : Dnspod.IpType} {r r' : RecordListT} :
    r' ∈ (d.push t r).record t' ↔ r' ∈ d.record t' ∨ t' = t ∧ r' = r := by
  cases t <;> cases t' <;> simp [Dnspod.push, Dnspod.record]

/-- A call that returns, with success or without, adds entries for items of its
own reply only. -/
theorem Dnspod.Sourced.decode {M : Machine} {g : Config} {items : List CJson} {src : Bytes}
    {d d' : Dnspod} {b : Bool} (h : d.Sourced M g items)
    (hdecode : tencentcloudDecodeRecordListFilter M g src d = .ok (b, d')) :
    d'.Sourced M g (items ++ replyItems M "RecordList" src) := by
  have hstart : d.Sourced M g (items ++ replyItems M "RecordList" src) := by
    intro t r hr
    obtain ⟨x, hx, hrec⟩ := h t r hr
    exact ⟨x, List.mem_append_left _ hx, hrec⟩
  refine decodeRecordListFilter_preserves (fun x hx t r d₁ hd₁ hrec => ?_) hstart hdecode
  intro t' r' hr'
  rcases mem_record_push.mp hr' with hr' | ⟨rfl, rfl⟩
  · exact hd₁ t' r' hr'
  · exact ⟨x, List.mem_append_right _ hx, hrec⟩

end DdnsCloudTencent
