import DdnsCloudTencent.Theory.DecoderItems

/-!
# JSON types in a reply (custom_cloudTencent_response_decode.cpp:33, 82)

- `TypeSafe`: no member of a reply is read through a NULL `valuestring`, stored
  as an id from another node, or taken for what it is not;
- `WellTyped`: the replies that give each decoder what it goes by;
- `decoder_typeSafe_iff`: the second is exactly when the first holds.
-/

namespace DdnsCloudTencent

open Cxx

/-- The list that a decoder descends to. -/
def Decoder.listNode (dec : Decoder) (root : CJson) : Option CJson :=
  (root.lookup (bytes "Response")).bind (·.lookup (bytes dec.list))

/-- Its items. -/
def Decoder.items (dec : Decoder) (root : CJson) : List CJson :=
  ((dec.listNode root).map CJson.items).getD []

/-- A member `Name` that is not a string. -/
def Nameless (x : CJson) : Prop := ∃ v ∈ x.lookup (bytes "Name"), v.text = none

/-- The types in a reply neither crash nor fool a decoder. With `tested` the two
members whose type the code looks at itself, `Name` and the list, count as well:
an item with another `Name` and a list that is no array are passed over. -/
structure TypeSafe (tested : Prop) (M : Machine) (g : Config) (dec : Decoder) (src : Bytes)
    (root : CJson) (d : Dnspod) : Prop where
  noNull : dec.decode M g src d ≠ .error .nullString
  ids : ∀ x, Reached (dec.body M g) (dec.items root) d x → StoresId (dec.body M g) x →
    ∃ v ∈ x.lookup dec.idMember, v.isNumber
  mistyped : ∀ x, Reached (dec.body M g) (dec.items root) d x → dec.Mistyped g x →
    ∃ d', dec.decode M g src d = .ok (false, d')
  tested : tested →
    (∃ list ∈ dec.listNode root, list.isArray = false) ∨
      (∃ x, Reached (dec.body M g) (dec.items root) d x ∧ Nameless x) →
    ∃ d', dec.decode M g src d = .ok (false, d')

/-- Up to the first item that lacks a member, the members that the items call for
are of their kinds, each up to the first missing one. With `tested` the list is
an array, and behind an item with another `Name` there is one that lacks a member. -/
structure WellTyped (tested : Prop) (g : Config) (dec : Decoder) (root : CJson) : Prop where
  sound : SoundBefore (dec.Complete g) (dec.Sound g) (dec.items root)
  isArray : tested → ∀ list ∈ dec.listNode root, list.isArray
  named : tested → ∀ pre x post, dec.items root = pre ++ x :: post →
    (∀ y ∈ pre, dec.Complete g y) → Nameless x → ∃ y ∈ post, ¬ dec.Complete g y

theorem decode_of_root {M : Machine} {g : Config} {dec : Decoder} {src : Bytes} {root : CJson}
    (hroot : tretapCJsonParse M (cStr src) = .ok (some root)) (d : Dnspod) :
    dec.decode M g src d =
      match dec.listNode root with
      | none => .ok (false, d)
      | some list => visit (dec.body M g) list.items d := by
  have hmember : 0 ∉ bytes dec.list := by cases dec <;> decide
  rw [dec.decode_eq, decodeResponse_eq, replyList_of_root hroot hmember, ← Decoder.listNode.eq_def]
  cases dec.listNode root <;> rfl

theorem sound_of_complete {Complete Sound : CJson → Prop} {items pre rest : List CJson}
    (hsound : SoundBefore Complete Sound items) (hitems : items = pre ++ rest)
    (hpre : ∀ y ∈ pre, Complete y) : ∀ y ∈ pre, Sound y ∧ Complete y := by
  intro y hy
  obtain ⟨before, after, rfl⟩ := List.append_of_mem hy
  rw [List.append_assoc] at hitems
  exact ⟨hsound before y (after ++ rest) hitems fun z hz => hpre z (List.mem_append_left _ hz),
    hpre y hy⟩

/-- An item with another `Name` calls for nothing. -/
theorem complete_of_nameless {g : Config} {dec : Decoder} {x : CJson} (h : Nameless x) :
    dec.Complete g x := by
  obtain ⟨v, hv, htext⟩ := h
  rw [Option.mem_def] at hv
  have hn : ¬ Named (dec.temp g) x := by
    intro hn
    rw [Named, hv, Option.bind_some] at hn
    rw [CJson.text, hn] at htext
    cases htext
  refine ⟨by rw [hv]; rfl, ?_⟩
  rw [Decoder.calls.eq_def, if_neg hn]
  exact fun m hm => absurd hm List.not_mem_nil

section Harmless

variable {tested : Prop} {M : Machine} {g : Config} {dec : Decoder} {src : Bytes} {root : CJson}
  {d : Dnspod}

/-- Without a list the decoder returns before its loop, and nothing can fool it. -/
theorem typeSafe_of_no_list (hnode : dec.listNode root = none)
    (hdecode : dec.decode M g src d = .ok (false, d)) : TypeSafe tested M g dec src root d where
  noNull := by
    rw [hdecode]
    simp
  ids x hx := by
    obtain ⟨pre, post, -, h, -⟩ := hx
    rw [Decoder.items, hnode] at h
    exact absurd h.symm (by simp)
  mistyped _ _ _ := ⟨d, hdecode⟩
  tested _ _ := ⟨d, hdecode⟩

theorem wellTyped_of_no_list (hnode : dec.listNode root = none) : WellTyped tested g dec root where
  sound pre x post h := by
    rw [Decoder.items, hnode] at h
    exact absurd h.symm (by simp)
  isArray _ list hlist := by
    rw [hnode] at hlist
    cases hlist
  named _ pre x post h := by
    rw [Decoder.items, hnode] at h
    exact absurd h.symm (by simp)

/-- The items of a list that is no array: the loop has none to visit. -/
theorem items_eq_nil_of_not_isArray {list : CJson} (h : list.isArray = false) :
    list.items = [] := by
  cases list with
  | array cs => cases h
  | _ => rfl

theorem TypeSafe.wellTyped (h : TypeSafe tested M g dec src root d)
    (hdecode : dec.decode M g src d = visit (dec.body M g) (dec.items root) d) :
    WellTyped tested g dec root := by
  have hspec := dec.itemSpec M g
  have hsound : SoundBefore (dec.Complete g) (dec.Sound g) (dec.items root) :=
    soundBefore_of_safe hspec (hdecode ▸ h.noNull) h.ids
  refine ⟨hsound, fun ht list hlist => ?_, fun ht pre x post hsplit hpre hx => ?_⟩
  · -- over a list that is no array the loop succeeds
    by_contra harray
    rw [Bool.not_eq_true] at harray
    obtain ⟨d', hd'⟩ := h.tested ht (.inl ⟨list, hlist, harray⟩)
    have hnode : dec.listNode root = some list := hlist
    have hnil : dec.items root = [] := by
      rw [Decoder.items, hnode]
      exact items_eq_nil_of_not_isArray harray
    rw [hdecode, hnil] at hd'
    cases hd'
  · -- the loop gets to the item, so it must end without success: behind the item, as what is
    -- up to it lacks nothing
    obtain ⟨d₁, hd₁⟩ := visit_of_sound hspec (sound_of_complete hsound hsplit hpre) d
    obtain ⟨d', hd'⟩ := h.tested ht (.inr ⟨x, ⟨pre, post, d₁, hsplit, hd₁⟩, hx⟩)
    rcases visit_of_soundBefore hspec hsound d with ⟨-, -, d₂, hd₂⟩ | ⟨⟨y, hy, hyc⟩, -⟩
    · rw [hdecode, hd₂] at hd'
      cases hd'
    · rw [hsplit] at hy
      rcases List.mem_append.mp hy with hy | hy
      · exact absurd (hpre y hy) hyc
      · rcases List.mem_cons.mp hy with rfl | hy
        · exact absurd (complete_of_nameless hx) hyc
        · exact ⟨y, hy, hyc⟩

/-- An item that the loop gets to is sound; one with another `Name` has an
incomplete one behind it. -/
theorem WellTyped.reached (h : WellTyped tested g dec root) {x : CJson}
    (hx : Reached (dec.body M g) (dec.items root) d x) :
    dec.Sound g x ∧ (Nameless x → tested → ∃ y ∈ dec.items root, ¬ dec.Complete g y) := by
  obtain ⟨pre, post, hsplit, hpre⟩ := complete_of_reached (dec.itemSpec M g) h.sound hx
  refine ⟨h.sound pre x post hsplit hpre, fun hn ht => ?_⟩
  obtain ⟨y, hy, hyc⟩ := h.named ht pre x post hsplit hpre hn
  refine ⟨y, ?_, hyc⟩
  rw [hsplit]
  exact List.mem_append_right _ (List.mem_cons_of_mem x hy)

theorem WellTyped.typeSafe (h : WellTyped tested g dec root)
    (hdecode : dec.decode M g src d = visit (dec.body M g) (dec.items root) d) :
    TypeSafe tested M g dec src root d := by
  have hspec := dec.itemSpec M g
  have hids : ∀ x, Reached (dec.body M g) (dec.items root) d x →
      StoresId (dec.body M g) x → ∃ v ∈ x.lookup dec.idMember, v.isNumber :=
    fun x hx hstores => hspec.numbered x (h.reached hx).1 hstores
  rcases visit_of_soundBefore hspec h.sound d with ⟨hall, hsnd, d₁, hd₁⟩ | ⟨-, d₁, hd₁⟩
  · -- the loop has gone over all items: none is incomplete or has a member of another kind
    refine ⟨by rw [hdecode, hd₁]; simp, hids, fun x hx hmis => ?_, fun ht hcase => ?_⟩
    · obtain ⟨pre, post, _, hsplit, -⟩ := hx
      have hmem : x ∈ dec.items root := by simp [hsplit]
      obtain ⟨m, hm, hcalled⟩ := hmis
      exact absurd (called_of_sound (hsnd x hmem) (hall x hmem).2 m hm) hcalled
    · rcases hcase with ⟨list, hlist, harray⟩ | ⟨x, hx, hn⟩
      · rw [h.isArray ht list hlist] at harray
        cases harray
      · obtain ⟨y, hy, hyc⟩ := (h.reached hx).2 hn ht
        exact absurd (hall y hy) hyc
  · have hfalse : dec.decode M g src d = .ok (false, d₁) := hdecode.trans hd₁
    exact ⟨by rw [hfalse]; simp, hids, fun _ _ _ => ⟨d₁, hfalse⟩, fun _ _ => ⟨d₁, hfalse⟩⟩

end Harmless

/-- **When the JSON types of a reply are harmless.** -/
theorem decoder_typeSafe_iff (tested : Prop) (M : Machine) (g : Config) (dec : Decoder)
    {src : Bytes} {root : CJson} (hroot : tretapCJsonParse M (cStr src) = .ok (some root))
    (d : Dnspod) :
    TypeSafe tested M g dec src root d ↔ WellTyped tested g dec root := by
  cases hnode : dec.listNode root with
  | none =>
    have hdecode : dec.decode M g src d = .ok (false, d) := by
      rw [decode_of_root hroot, hnode]
    exact iff_of_true (typeSafe_of_no_list hnode hdecode) (wellTyped_of_no_list hnode)
  | some list =>
    have hitems : dec.items root = list.items := by rw [Decoder.items, hnode]; rfl
    have hdecode : dec.decode M g src d = visit (dec.body M g) (dec.items root) d := by
      rw [decode_of_root hroot, hnode, hitems]
    exact ⟨fun h => h.wellTyped hdecode, fun h => h.typeSafe hdecode⟩

/-- The reply of the record list's sample gives the decoder what it goes by. -/
theorem mixedReply_typeSafe :
    let M := (replyEnv []).machine
    TypeSafe False M wwwConfig .recordListFilter mixedReply (parsed M mixedReply)
      (Dnspod.new []) := by
  intro M
  have hroot : tretapCJsonParse M (cStr mixedReply) = .ok (some (parsed M mixedReply)) :=
    parse_eq_parsed (by decide +kernel)
  have hsound : ∀ x ∈ Decoder.items .recordListFilter (parsed M mixedReply),
      Decoder.Sound wwwConfig .recordListFilter x := by decide +kernel
  refine (decoder_typeSafe_iff False M wwwConfig .recordListFilter hroot (Dnspod.new [])).mpr
    ⟨fun pre x post hsplit _ => hsound x (by simp [hsplit]), False.elim, False.elim⟩

/-- A record whose `Type` is `null`. -/
def nullTypeReply : Bytes :=
  bytes "\x7b\"Response\":\x7b\"RecordList\":[\x7b\"Name\":\"@\",\"Type\":null\x7d]\x7d\x7d"

/-- There the record decoder compares a NULL `valuestring`. -/
theorem nullType_not_typeSafe :
    let M := (replyEnv []).machine
    tretapCJsonParse M (cStr nullTypeReply) = .ok (some (parsed M nullTypeReply)) ∧
      tencentcloudDecodeRecordListFilter M Config.empty nullTypeReply (Dnspod.new []) =
        .error .nullString ∧
      ¬ TypeSafe False M Config.empty .recordListFilter nullTypeReply (parsed M nullTypeReply)
        (Dnspod.new []) := by
  intro M
  have hfault : tencentcloudDecodeRecordListFilter M Config.empty nullTypeReply (Dnspod.new []) =
      .error .nullString := by decide +kernel
  exact ⟨parse_eq_parsed (by decide +kernel), hfault, fun h => h.noNull hfault⟩

end DdnsCloudTencent
