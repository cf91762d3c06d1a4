import DdnsCloudTencent.Theory.Parsing
import DdnsCloudTencent.Theory.ReplyTypes

/-!
# The domain decoder (custom_cloudTencent_response_decode.cpp:19)

For every item named as the configured domain the decoder stores `DomainId`,
looks for `Grade`, and stores that. The id goes through `valueint`, an `int`.

- `wideId_of_narrow`, `wideId_ne`: which ids survive the `int`;
- `visit_complete`, `visit_incomplete`: the object after the items that have both
  members, and after the first one that does not;
- `domainDecoder_exact_iff`: when the decoder is exact and all-or-nothing.
-/

namespace DdnsCloudTencent

open Cxx

/-! ## Ids through an int -/

/-- An `int` as a `uint64_t` is small or within 2^31 of the top. -/
theorem toNat_wide (i : Int32) :
    (0 ≤ i.toInt ∧ (i.toInt64.toUInt64.toNat : ℤ) = i.toInt) ∨
      (i.toInt < 0 ∧ 2 ^ 64 - 2 ^ 31 ≤ i.toInt64.toUInt64.toNat) := by
  have hlt := Int32.toInt_lt i
  have hle := Int32.le_toInt i
  have hwide : i.toInt64.toInt = i.toInt := Int32.toInt_toInt64 i
  have hbits : i.toInt64.toInt = i.toInt64.toBitVec.toInt := rfl
  rw [BitVec.toInt_eq_toNat_cond, Int64.toNat_toBitVec] at hbits
  have hbound := UInt64.toNat_lt i.toInt64.toUInt64
  split at hbits <;> omega

theorem wideId_ne {x : CJson} {n : Nat} (hn : 2 ^ 31 ≤ n) (hn' : n < 2 ^ 53) :
    x.wideId.toNat ≠ n := by
  have hlt := Int32.toInt_lt x.valueint
  have hwide := toNat_wide x.valueint
  unfold CJson.wideId
  omega

/-- An id below 2^31 survives. -/
theorem wideId_of_narrow {M : Machine} {x : CJson} (hx : x.Narrow M) {n : Nat}
    (h : x.natural = some n) (hn : n < 2 ^ 31) : x.wideId.toNat = n := by
  obtain ⟨i, rfl⟩ := eq_number_of_natural h
  have hi : i = M.toInt32 (.ofNat n) := by cases hx; rfl
  have hrange : -2 ^ 31 ≤ (n : ℤ) ∧ (n : ℤ) < 2 ^ 31 := by omega
  have hint : i.toInt = n := by
    rw [hi, Machine.toInt32, Double.trunc_ofNat]
    simp only [hrange, and_self, if_true]
    exact Int32.toInt_ofInt_of_le hrange.1 hrange.2
  have hwide := toNat_wide i
  show i.toInt64.toUInt64.toNat = n
  omega

/-! ## The items named as the domain -/

/-- An item named as the configured domain. -/
def DomainNamed (g : Config) (x : CJson) : Prop :=
  (x.lookup (bytes "Name")).bind CJson.text = some g.domainName

instance (g : Config) (x : CJson) : Decidable (DomainNamed g x) :=
  inferInstanceAs (Decidable (_ = _))

/-- These items of a list. -/
def domainNamed (g : Config) (items : List CJson) : List CJson := items.filter (DomainNamed g ·)

/-- An item with both members. -/
def CompleteDomain (x : CJson) : Prop :=
  (x.lookup (bytes "DomainId")).isSome ∧ (x.lookup (bytes "Grade")).isSome

instance (x : CJson) : Decidable (CompleteDomain x) :=
  inferInstanceAs (Decidable (_ ∧ _))

/-- The members of the items have their types. -/
structure TypedDomains (g : Config) (items : List CJson) : Prop where
  name : ∀ x ∈ items, ∃ v ∈ x.lookup (bytes "Name"), v.text.isSome
  id : ∀ x ∈ domainNamed g items, ∀ v ∈ x.lookup (bytes "DomainId"), ∃ n ∈ v.natural, n < 2 ^ 53
  grade : ∀ x ∈ domainNamed g items, ∀ v ∈ x.lookup (bytes "Grade"), v.text.isSome

/-- The ids of a list of items. -/
def domainIds (xs : List CJson) : List CJson := xs.filterMap (·.lookup (bytes "DomainId"))

/-- The grades of a list of items. -/
def domainGrades (xs : List CJson) : List Bytes :=
  xs.filterMap fun x => (x.lookup (bytes "Grade")).bind CJson.text

/-- The object after the ids and the grades of some items have been stored. -/
def Dnspod.storeAll (d : Dnspod) (ids : List CJson) (grades : List Bytes) : Dnspod :=
  { d with
    domainId := (ids.getLast?.map CJson.wideId).getD d.domainId
    domainGrade := grades.getLast?.getD d.domainGrade }

theorem storeAll_nil (d : Dnspod) : d.storeAll [] [] = d := rfl

theorem storeAll_cons (d : Dnspod) (i : CJson) (s : Bytes) (ids : List CJson)
    (grades : List Bytes) :
    ({ d with domainId := i.wideId, domainGrade := s } : Dnspod).storeAll ids grades =
      d.storeAll (i :: ids) (s :: grades) := by
  unfold Dnspod.storeAll
  rw [List.getLast?_cons, List.getLast?_cons]
  cases ids.getLast? <;> cases grades.getLast? <;> rfl

theorem named_domain_iff {g : Config} (hg : 0 ∉ g.domainName) {x : CJson} :
    Named (cStr g.domainName) x ↔ DomainNamed g x := by
  rw [Named, DomainNamed]
  cases x.lookup (bytes "Name") with
  | none => simp
  | some v => exact (CJson.text_eq_some_iff hg).symm

section Loop

variable {g : Config} (hg : 0 ∉ g.domainName) {x : CJson}
  (hname : ∃ v ∈ x.lookup (bytes "Name"), v.text.isSome)

include hg hname

theorem domainListItem_of_other (hx : ¬ DomainNamed g x) (d : Dnspod) :
    domainListItem (cStr g.domainName) x d = .ok (true, d) := by
  obtain ⟨v, hv, -⟩ := hname
  rw [Option.mem_def] at hv
  rw [domainListItem_eq, hv]
  exact if_neg fun hn => hx ((named_domain_iff hg).mp hn)

/-- An item with both members stores both. -/
theorem domainListItem_of_complete (hx : DomainNamed g x) (hc : CompleteDomain x)
    (hgrade : ∀ v ∈ x.lookup (bytes "Grade"), v.text.isSome) :
    ∃ i s, domainIds [x] = [i] ∧ domainGrades [x] = [s] ∧ ∀ d,
      domainListItem (cStr g.domainName) x d =
        .ok (true, { d with domainId := i.wideId, domainGrade := s }) := by
  obtain ⟨v, hv, -⟩ := hname
  rw [Option.mem_def] at hv
  obtain ⟨i, hi⟩ := Option.isSome_iff_exists.mp hc.1
  obtain ⟨w, hw⟩ := Option.isSome_iff_exists.mp hc.2
  obtain ⟨s, hs⟩ := Option.isSome_iff_exists.mp (hgrade w hw)
  refine ⟨i, s, by simp [domainIds, hi], by simp [domainGrades, hw, hs], fun d => ?_⟩
  rw [domainListItem_eq, hv]
  simp only [if_pos ((named_domain_iff hg).mpr hx), hi, hw, hs]

/-- An item that lacks its grade has stored its id before it fails. -/
theorem domainListItem_of_incomplete (hx : DomainNamed g x) (hc : ¬ CompleteDomain x) (d : Dnspod) :
    domainListItem (cStr g.domainName) x d = .ok (false, d.storeAll (domainIds [x]) []) := by
  obtain ⟨v, hv, -⟩ := hname
  rw [Option.mem_def] at hv
  rw [domainListItem_eq, hv]
  simp only [if_pos ((named_domain_iff hg).mpr hx)]
  cases hi : x.lookup (bytes "DomainId") with
  | none => simp [domainIds, hi, storeAll_nil]
  | some i =>
    cases hw : x.lookup (bytes "Grade") with
    | none => simp [domainIds, hi, Dnspod.storeAll]
    | some w => exact absurd ⟨by rw [hi]; rfl, by rw [hw]; rfl⟩ hc

end Loop

theorem domainNamed_append (g : Config) (xs ys : List CJson) :
    domainNamed g (xs ++ ys) = domainNamed g xs ++ domainNamed g ys := List.filter_append ..

/-- The items before the first incomplete one are stored. -/
theorem visit_complete {g : Config} (hg : 0 ∉ g.domainName) {items : List CJson}
    (ht : TypedDomains g items) (hc : ∀ x ∈ domainNamed g items, CompleteDomain x)
    (rest : List CJson) (d : Dnspod) :
    visit (domainListItem (cStr g.domainName)) (items ++ rest) d =
      visit (domainListItem (cStr g.domainName)) rest
        (d.storeAll (domainIds (domainNamed g items)) (domainGrades (domainNamed g items))) := by
  induction items generalizing d with
  | nil => rw [List.nil_append]; rfl
  | cons x items ih =>
    have hname := ht.name x List.mem_cons_self
    -- only an item of the domain stores anything
    by_cases hx : DomainNamed g x
    · have hfilter : domainNamed g (x :: items) = x :: domainNamed g items :=
        List.filter_cons_of_pos (by simpa using hx)
      have ht' : TypedDomains g items :=
        ⟨fun y hy => ht.name y (List.mem_cons_of_mem x hy),
          fun y hy => ht.id y (hfilter ▸ List.mem_cons_of_mem x hy),
          fun y hy => ht.grade y (hfilter ▸ List.mem_cons_of_mem x hy)⟩
      rw [hfilter] at hc ⊢
      obtain ⟨hcx, hcs⟩ := List.forall_mem_cons.mp hc
      obtain ⟨i, s, hi, hs, hbody⟩ := domainListItem_of_complete hg hname hx hcx
        (ht.grade x (hfilter ▸ List.mem_cons_self))
      have hids : domainIds (x :: domainNamed g items) = i :: domainIds (domainNamed g items) := by
        rw [← List.singleton_append, domainIds, List.filterMap_append]
        exact congrArg (· ++ _) hi
      have hgrades : domainGrades (x :: domainNamed g items) =
          s :: domainGrades (domainNamed g items) := by
        rw [← List.singleton_append, domainGrades, List.filterMap_append]
        exact congrArg (· ++ _) hs
      rw [List.cons_append, visit, hbody, hids, hgrades, ← storeAll_cons]
      exact ih ht' hcs _
    · have hfilter : domainNamed g (x :: items) = domainNamed g items :=
        List.filter_cons_of_neg (by simpa using hx)
      have ht' : TypedDomains g items :=
        ⟨fun y hy => ht.name y (List.mem_cons_of_mem x hy),
          fun y hy => ht.id y (hfilter ▸ hy), fun y hy => ht.grade y (hfilter ▸ hy)⟩
      rw [hfilter] at hc ⊢
      rw [List.cons_append, visit, domainListItem_of_other hg hname hx]
      exact ih ht' hc d

theorem storeAll_storeAll (d : Dnspod) (ids ids' : List CJson) (grades : List Bytes) :
    (d.storeAll ids grades).storeAll ids' [] = d.storeAll (ids ++ ids') grades := by
  unfold Dnspod.storeAll
  rw [List.getLast?_append]
  cases ids'.getLast? <;> rfl

/-- Either every item of the domain is complete, or there is a first one that is
not. -/
theorem complete_or_first_incomplete (g : Config) (items : List CJson) :
    (∀ x ∈ domainNamed g items, CompleteDomain x) ∨
      ∃ pre x post, items = pre ++ x :: post ∧ DomainNamed g x ∧ ¬ CompleteDomain x ∧
        ∀ y ∈ domainNamed g pre, CompleteDomain y := by
  induction items with
  | nil => exact .inl fun x hx => absurd hx List.not_mem_nil
  | cons x items ih =>
    by_cases hx : DomainNamed g x ∧ ¬ CompleteDomain x
    · exact .inr ⟨[], x, items, rfl, hx.1, hx.2, fun y hy => absurd hy List.not_mem_nil⟩
    · have hcons : ∀ xs, (∀ y ∈ domainNamed g xs, CompleteDomain y) →
          ∀ y ∈ domainNamed g (x :: xs), CompleteDomain y := by
        intro xs hxs y hy
        obtain ⟨hmem, hnamed⟩ := List.mem_filter.mp hy
        rcases List.mem_cons.mp hmem with rfl | hmem
        · by_contra hc
          exact hx ⟨by simpa using hnamed, hc⟩
        · exact hxs y (List.mem_filter.mpr ⟨hmem, hnamed⟩)
      rcases ih with hall | ⟨pre, y, post, rfl, hy, hyc, hpre⟩
      · exact .inl (hcons items hall)
      · exact .inr ⟨x :: pre, y, post, rfl, hy, hyc, hcons pre hpre⟩

/-- At the first incomplete item the decoder fails, its id stored. -/
theorem visit_incomplete {g : Config} (hg : 0 ∉ g.domainName) {pre post : List CJson} {x : CJson}
    (ht : TypedDomains g (pre ++ x :: post)) (hx : DomainNamed g x) (hxc : ¬ CompleteDomain x)
    (hpre : ∀ y ∈ domainNamed g pre, CompleteDomain y) (d : Dnspod) :
    visit (domainListItem (cStr g.domainName)) (pre ++ x :: post) d =
      .ok (false, d.storeAll (domainIds (domainNamed g pre ++ [x]))
        (domainGrades (domainNamed g pre))) := by
  have htpre : TypedDomains g pre := by
    refine ⟨fun y hy => ht.name y (List.mem_append_left _ hy), fun y hy => ht.id y ?_,
      fun y hy => ht.grade y ?_⟩
    · rw [domainNamed_append]
      exact List.mem_append_left _ hy
    · rw [domainNamed_append]
      exact List.mem_append_left _ hy
  have hname := ht.name x (List.mem_append_right _ List.mem_cons_self)
  have hids : domainIds (domainNamed g pre ++ [x]) =
      domainIds (domainNamed g pre) ++ domainIds [x] := List.filterMap_append ..
  rw [visit_complete hg htpre hpre, visit, domainListItem_of_incomplete hg hname hx hxc,
    storeAll_storeAll, hids]

/-! ## Exact decoding -/

theorem CJson.Narrow.lookup {M : Machine} {x v : CJson} (h : x.Narrow M) {name : Bytes}
    (hv : v ∈ x.lookup name) : v.Narrow M := by
  cases h with
  | object ms hms =>
    obtain ⟨m, hm, rfl⟩ := Option.map_eq_some_iff.mp hv
    exact hms m (List.mem_of_find?_eq_some hm)
  | _ => cases hv

theorem CJson.Narrow.items {M : Machine} {x v : CJson} (h : x.Narrow M) (hv : v ∈ x.items) :
    v.Narrow M := by
  cases h with
  | array cs hcs => exact hcs v hv
  | _ => cases hv

/-- The items of the domain list named as the configured domain. -/
def domainItems (g : Config) (root : CJson) : List CJson :=
  domainNamed g (Decoder.items .domainList root)

/-- The object holds the id and the grade of an item. -/
structure DomainOf (x : CJson) (d : Dnspod) : Prop where
  id : ∃ v ∈ x.lookup (bytes "DomainId"), v.natural = some d.domainId.toNat
  grade : ∃ v ∈ x.lookup (bytes "Grade"), v.text = some d.domainGrade

/-- The object holds the id and the grade that it held before. -/
structure SameDomain (d d' : Dnspod) : Prop where
  id : d'.domainId = d.domainId
  grade : d'.domainGrade = d.domainGrade

/-- An exact and all-or-nothing decoding. -/
structure ExactDecoding (g : Config) (root : CJson) (d : Dnspod) (ret : Bool) (d' : Dnspod) :
    Prop where
  last : ret = true → ∀ x ∈ (domainItems g root).getLast?, DomainOf x d'
  none : ret = true → domainItems g root = [] → SameDomain d d'
  failed : ret = false → SameDomain d d'

/-- Where all items of the domain are complete, the last one's id is below 2^31;
where one is not, what has been stored up to the first such one is what the
object held already. -/
structure ExactWhen (g : Config) (root : CJson) (d : Dnspod) : Prop where
  small : (∀ x ∈ domainItems g root, CompleteDomain x) → ∀ x ∈ (domainItems g root).getLast?,
    ∀ v ∈ x.lookup (bytes "DomainId"), ∃ n ∈ v.natural, n < 2 ^ 31
  torn : ∀ x ∈ ((domainItems g root).dropWhile (CompleteDomain ·)).head?,
    (∀ v ∈ (domainIds ((domainItems g root).takeWhile (CompleteDomain ·) ++ [x])).getLast?,
      v.wideId = d.domainId) ∧
    ∀ s ∈ (domainGrades ((domainItems g root).takeWhile (CompleteDomain ·))).getLast?,
      s = d.domainGrade

theorem sameDomain_storeAll_iff (d : Dnspod) (ids : List CJson) (grades : List Bytes) :
    SameDomain d (d.storeAll ids grades) ↔
      (∀ v ∈ ids.getLast?, v.wideId = d.domainId) ∧ ∀ s ∈ grades.getLast?, s = d.domainGrade := by
  have hid : (d.storeAll ids grades).domainId = d.domainId ↔
      ∀ v ∈ ids.getLast?, v.wideId = d.domainId := by
    unfold Dnspod.storeAll
    cases ids.getLast? <;> simp
  have hgrade : (d.storeAll ids grades).domainGrade = d.domainGrade ↔
      ∀ s ∈ grades.getLast?, s = d.domainGrade := by
    unfold Dnspod.storeAll
    cases grades.getLast? <;> simp
  rw [← hid, ← hgrade]
  exact ⟨fun h => ⟨h.id, h.grade⟩, fun h => ⟨h.1, h.2⟩⟩

/-- A complete item at the end of the list: what is stored is exact if its id is
below 2^31. -/
theorem domainOf_storeAll_iff {M : Machine} {x : CJson} (hnarrow : x.Narrow M)
    (hc : CompleteDomain x)
    (hid : ∀ v ∈ x.lookup (bytes "DomainId"), ∃ n ∈ v.natural, n < 2 ^ 53)
    (hgrade : ∀ v ∈ x.lookup (bytes "Grade"), v.text.isSome) (xs : List CJson) (d : Dnspod) :
    DomainOf x (d.storeAll (domainIds (xs ++ [x])) (domainGrades (xs ++ [x]))) ↔
      ∀ v ∈ x.lookup (bytes "DomainId"), ∃ n ∈ v.natural, n < 2 ^ 31 := by
  obtain ⟨i, hi⟩ := Option.isSome_iff_exists.mp hc.1
  obtain ⟨w, hw⟩ := Option.isSome_iff_exists.mp hc.2
  obtain ⟨s, hs⟩ := Option.isSome_iff_exists.mp (hgrade w hw)
  obtain ⟨n, hn, hn'⟩ := hid i hi
  rw [Option.mem_def] at hn
  have hids : (domainIds (xs ++ [x])).getLast? = some i := by
    simp [domainIds, List.filterMap_append, hi]
  have hgrades : (domainGrades (xs ++ [x])).getLast? = some s := by
    simp [domainGrades, List.filterMap_append, hw, hs]
  have hstored : ∀ d : Dnspod, d.storeAll (domainIds (xs ++ [x])) (domainGrades (xs ++ [x])) =
      { d with domainId := i.wideId, domainGrade := s } := by
    intro d
    rw [Dnspod.storeAll, hids, hgrades]
    rfl
  rw [hstored]
  constructor
  · rintro ⟨⟨v, hv, hnat⟩, -⟩ v' hv'
    obtain rfl : i = v := Option.some.inj (hi.symm.trans hv)
    obtain rfl : i = v' := Option.some.inj (hi.symm.trans hv')
    refine ⟨n, hn, ?_⟩
    have hsame : n = i.wideId.toNat := Option.some.inj (hn.symm.trans hnat)
    -- the id has gone through `int`, which changes it from 2^31 on
    by_contra hlarge
    exact wideId_ne (Nat.le_of_not_lt hlarge) hn' hsame.symm
  · intro h
    obtain ⟨n', hn₂, hsmall⟩ := h i hi
    refine ⟨⟨i, hi, ?_⟩, ⟨w, hw, hs⟩⟩
    rw [wideId_of_narrow (hnarrow.lookup hi) hn₂ hsmall]
    exact hn₂

/-- The decoder called on the object `d`, exactly. -/
def DecodesExactly (M : Machine) (g : Config) (src : Bytes) (root : CJson) (d : Dnspod) : Prop :=
  ∃ ret d', tencentcloudDecodeDomainList M g src d = .ok (ret, d') ∧ ExactDecoding g root d ret d'

theorem decodesExactly_iff {M : Machine} {g : Config} {src : Bytes} {root : CJson}
    {d d' : Dnspod} {ret : Bool}
    (h : tencentcloudDecodeDomainList M g src d = .ok (ret, d')) :
    DecodesExactly M g src root d ↔ ExactDecoding g root d ret d' := by
  constructor
  · rintro ⟨ret', d'', h', hexact⟩
    rw [h] at h'
    cases h'
    exact hexact
  · exact fun hexact => ⟨ret, d', h, hexact⟩

section Decode

variable {M : Machine} {g : Config} (hg : 0 ∉ g.domainName) {src : Bytes} {root : CJson}
  {items : List CJson} (hitems : Decoder.items .domainList root = items)
  (hdecode : ∀ d, tencentcloudDecodeDomainList M g src d =
    visit (domainListItem (cStr g.domainName)) items d)
  (ht : TypedDomains g items)

include hg hitems hdecode ht

/-- All items of the domain are complete: the decoder succeeds, and the id of the
last one has to survive. -/
theorem decodesExactly_of_complete (hnarrow : ∀ x ∈ items, x.Narrow M)
    (hall : ∀ x ∈ domainNamed g items, CompleteDomain x) (d : Dnspod) :
    DecodesExactly M g src root d ↔ ExactWhen g root d := by
  have hdom : domainItems g root = domainNamed g items := by rw [domainItems, hitems]
  have hvisit := visit_complete hg ht hall [] d
  rw [List.append_nil, ← hdecode] at hvisit
  have hexact : ∀ x ∈ (domainItems g root).getLast?,
      (DomainOf x (d.storeAll (domainIds (domainItems g root))
          (domainGrades (domainItems g root))) ↔
        ∀ v ∈ x.lookup (bytes "DomainId"), ∃ n ∈ v.natural, n < 2 ^ 31) := by
    intro x hx
    rw [hdom] at hx ⊢
    obtain ⟨xs, hxs⟩ := List.getLast?_eq_some_iff.mp hx
    have hmem : x ∈ domainNamed g items := List.mem_of_getLast? hx
    rw [hxs]
    exact domainOf_storeAll_iff (hnarrow x (List.mem_of_mem_filter hmem)) (hall x hmem)
      (ht.id x hmem) (ht.grade x hmem) xs d
  rw [decodesExactly_iff hvisit, ← hdom]
  constructor
  · intro h
    refine ⟨fun _ x hx => (hexact x hx).mp (h.last rfl x hx), fun x hx => ?_⟩
    have hnil : (domainItems g root).dropWhile (CompleteDomain ·) = [] :=
      List.dropWhile_eq_nil_iff.mpr fun x hx => by simpa using hall x (hdom ▸ hx)
    rw [hnil] at hx
    cases hx
  · intro h
    refine ⟨fun _ x hx => (hexact x hx).mpr (h.small (by rwa [hdom]) x hx), fun _ hnil => ?_,
      fun h => by cases h⟩
    rw [hnil]
    exact ⟨rfl, rfl⟩

/-- An item of the domain is incomplete: the decoder fails at the first one, and
what it has stored by then has to be there before. -/
theorem decodesExactly_of_incomplete {pre post : List CJson} {x : CJson}
    (hsplit : items = pre ++ x :: post) (hx : DomainNamed g x) (hxc : ¬ CompleteDomain x)
    (hpre : ∀ y ∈ domainNamed g pre, CompleteDomain y) (d : Dnspod) :
    DecodesExactly M g src root d ↔ ExactWhen g root d := by
  have hvisit : tencentcloudDecodeDomainList M g src d = .ok (false, d.storeAll
      (domainIds (domainNamed g pre ++ [x])) (domainGrades (domainNamed g pre))) := by
    rw [hdecode, hsplit]
    exact visit_incomplete hg (hsplit ▸ ht) hx hxc hpre d
  have hnamed : domainItems g root = domainNamed g pre ++ x :: domainNamed g post := by
    rw [domainItems, hitems, hsplit, domainNamed_append, domainNamed, domainNamed, domainNamed,
      List.filter_cons_of_pos (by simpa using hx)]
  have htake : (domainItems g root).takeWhile (CompleteDomain ·) = domainNamed g pre := by
    rw [hnamed, List.takeWhile_append_of_pos fun y hy => by simpa using hpre y hy,
      List.takeWhile_cons_of_neg (by simpa using hxc), List.append_nil]
  have hdrop : (domainItems g root).dropWhile (CompleteDomain ·) = x :: domainNamed g post := by
    rw [hnamed, List.dropWhile_append_of_pos fun y hy => by simpa using hpre y hy,
      List.dropWhile_cons_of_neg (by simpa using hxc)]
  rw [decodesExactly_iff hvisit]
  constructor
  · intro h
    have hsame := (sameDomain_storeAll_iff d _ _).mp (h.failed rfl)
    refine ⟨fun hc => absurd (hc x (by rw [hnamed]; simp)) hxc, fun y hy => ?_⟩
    rw [hdrop] at hy
    cases hy
    rwa [htake]
  · intro h
    have htorn := h.torn x (by rw [hdrop]; rfl)
    rw [htake] at htorn
    exact ⟨fun h => absurd h Bool.false_ne_true, fun h => absurd h Bool.false_ne_true,
      fun _ => (sameDomain_storeAll_iff d _ _).mpr htorn⟩

end Decode

/-- **When the domain decoder is exact and all-or-nothing.** -/
theorem domainDecoder_exact_iff (M : Machine) {g : Config} (hg : 0 ∉ g.domainName) {src : Bytes}
    {root : CJson} (hroot : tretapCJsonParse M (cStr src) = .ok (some root))
    (ht : TypedDomains g (Decoder.items .domainList root)) (d : Dnspod) :
    DecodesExactly M g src root d ↔ ExactWhen g root d := by
  have hdecode : ∀ d, Decoder.decode M g .domainList src d = _ := fun d => decode_of_root hroot d
  cases hnode : Decoder.listNode .domainList root with
  | none =>
    -- without a list the decoder has returned before its loop
    have hitems : domainItems g root = [] := by
      rw [domainItems, Decoder.items, hnode]
      rfl
    rw [hnode] at hdecode
    rw [decodesExactly_iff (hdecode d)]
    refine iff_of_true ⟨fun h => absurd h Bool.false_ne_true, fun h => absurd h Bool.false_ne_true,
      fun _ => ⟨rfl, rfl⟩⟩ ⟨fun _ x hx => ?_, fun x hx => ?_⟩
    · rw [hitems] at hx
      cases hx
    · rw [hitems] at hx
      cases hx
  | some list =>
    have hitems : Decoder.items .domainList root = list.items := by
      rw [Decoder.items, hnode]
      rfl
    rw [hnode] at hdecode
    rw [hitems] at ht
    have hnarrow : ∀ x ∈ list.items, x.Narrow M := by
      obtain ⟨response, hresponse, hlist⟩ := Option.bind_eq_some_iff.mp hnode
      exact fun x hx => (((narrow_of_parse hroot).lookup hresponse).lookup hlist).items hx
    rcases complete_or_first_incomplete g list.items with
      hall | ⟨pre, x, post, hsplit, hx, hxc, hpre⟩
    · exact decodesExactly_of_complete hg hitems hdecode ht hnarrow hall d
    · exact decodesExactly_of_incomplete hg hitems hdecode ht hsplit hx hxc hpre d

/-- A configuration for `example.com`. -/
def exampleConfig : Config := { Config.empty with domainName := bytes "example.com" }

/-- A reply with two complete items. -/
def twoDomainsReply : Bytes :=
  bytes "\x7b\"Response\":\x7b\"DomainList\":[
    \x7b\"Name\":\"example.com\",\"DomainId\":99,\"Grade\":\"DP_FREE\"\x7d,
    \x7b\"Name\":\"example.org\"\x7d]\x7d\x7d"

/-- It is decoded exactly. -/
theorem twoDomains_decodesExactly :
    let M := (replyEnv []).machine
    DecodesExactly M exampleConfig twoDomainsReply (parsed M twoDomainsReply) (Dnspod.new []) := by
  intro M
  have hroot : tretapCJsonParse M (cStr twoDomainsReply) = .ok (some (parsed M twoDomainsReply)) :=
    parse_eq_parsed (by decide +kernel)
  have htyped : (∀ x ∈ Decoder.items .domainList (parsed M twoDomainsReply),
        ∃ v ∈ x.lookup (bytes "Name"), v.text.isSome) ∧
      ∀ x ∈ domainItems exampleConfig (parsed M twoDomainsReply),
        (∀ v ∈ x.lookup (bytes "DomainId"), ∃ n ∈ v.natural, n < 2 ^ 31) ∧
        ∀ v ∈ x.lookup (bytes "Grade"), v.text.isSome := by decide +kernel
  have hcomplete : ((domainItems exampleConfig (parsed M twoDomainsReply)).dropWhile
      (CompleteDomain ·)).head?.isNone := by decide +kernel
  obtain ⟨hname, hitems⟩ := htyped
  refine (domainDecoder_exact_iff M (by decide) hroot ⟨hname, fun x hx v hv => ?_,
    fun x hx => (hitems x hx).2⟩ (Dnspod.new [])).mpr ⟨fun _ x hx => ?_, fun x hx => ?_⟩
  · obtain ⟨n, hn, hsmall⟩ := (hitems x hx).1 v hv
    exact ⟨n, hn, by omega⟩
  · exact (hitems x (List.mem_of_getLast? hx)).1
  · rw [Option.isNone_iff_eq_none.mp hcomplete] at hx
    cases hx

/-- A domain without a `Grade`. -/
def gradelessReply : Bytes :=
  bytes "\x7b\"Response\":\x7b\"DomainList\":[" ++
    bytes "\x7b\"Name\":\"example.com\",\"DomainId\":7\x7d]\x7d\x7d"

/-- The decoder fails on it and has changed `domain_id`. -/
theorem gradeless_not_exact :
    let M := (replyEnv []).machine
    tretapCJsonParse M (cStr gradelessReply) = .ok (some (parsed M gradelessReply)) ∧
      tencentcloudDecodeDomainList M exampleConfig gradelessReply (Dnspod.new []) =
        .ok (false, { Dnspod.new [] with domainId := 7 }) ∧
      ¬ DecodesExactly M exampleConfig gradelessReply (parsed M gradelessReply)
        (Dnspod.new []) := by
  intro M
  have hdecode : tencentcloudDecodeDomainList M exampleConfig gradelessReply (Dnspod.new []) =
      .ok (false, { Dnspod.new [] with domainId := 7 }) := by decide +kernel
  refine ⟨parse_eq_parsed (by decide +kernel), hdecode, fun h => ?_⟩
  have hsame := ((decodesExactly_iff hdecode).mp h).failed rfl
  exact absurd hsame.id (by decide)

end DdnsCloudTencent
