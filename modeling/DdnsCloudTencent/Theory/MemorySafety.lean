import DdnsCloudTencent.Theory.MainRun
import DdnsCloudTencent.Theory.ReaderSafety
import DdnsCloudTencent.Theory.ReplyTypes

/-!
# When a run of main keeps to its memory (main.cpp:85)

A run parses two replies, those of its listings. What the service sends is any text,
so the runs here are those on a stack of some size (`mainOnStack`): the calls of the
reader are nested as deep as the text, with no other limit.

- `Decoder.decode_error`: the faults of a decoder and what in the reply they come from;
- `main_memory_safe`: a run on replies without broken escapes whose nesting the stack
  has room for.
-/

namespace DdnsCloudTencent

open Cxx Json

variable {σ : Type}

/-! ## The faults of the decoders -/

section Faults

variable {M : Machine} {g : Config}

theorem recordListFilterItem_fault {temp : CStr} {x : CJson} {d : Dnspod} {f : Fault}
    (h : recordListFilterItem M temp x d = .error f) : f = .nullString := by
  have hread : ∀ type f, readRecord M x type = .error f → f = .nullString := by
    intro type f h
    unfold readRecord at h
    repeat' split at h
    all_goals cases h
    rfl
  have hblock : ∀ fourth type t d f, recordBlock M x fourth type t d = .error f →
      f = .nullString := by
    intro fourth type t d f h
    unfold recordBlock at h
    repeat' split at h
    all_goals first
      | cases h
        exact hread _ _ ‹_›
      | cases h
  unfold recordListFilterItem at h
  split at h
  · cases h
  · split at h
    · split at h
      · cases h
      · split at h
        · cases h
          rfl
        · split at h
          · exact hblock _ _ _ _ _ h
          · exact hblock _ _ _ _ _ h
    · cases h

theorem domainListItem_fault {temp : CStr} {x : CJson} {d : Dnspod} {f : Fault}
    (h : domainListItem temp x d = .error f) : f = .nullString := by
  unfold domainListItem at h
  repeat' split at h
  all_goals cases h
  rfl

theorem exists_mistyped_of_not_sound {dec : Decoder} {x : CJson} (h : ¬ dec.Sound g x) :
    dec.Mistyped g x := by
  by_contra hno
  simp only [Decoder.Mistyped, not_exists, not_and, not_not] at hno
  have hall : ∀ ms : List (Bytes × Kind), (∀ m ∈ ms, Called x m) → SoundCalls x ms := by
    intro ms hms
    induction ms with
    | nil => exact trivial
    | cons m ms ih =>
      obtain ⟨hm, hms⟩ := List.forall_mem_cons.mp hms
      exact ⟨hm, fun _ => ih hms⟩
  exact h (hall _ hno)

/-- The body of a loop faults only at a member of another kind. -/
theorem Decoder.body_error {dec : Decoder} {x : CJson} {d : Dnspod} {f : Fault}
    (h : dec.body M g x d = .error f) : f = .nullString ∧ dec.Mistyped g x := by
  refine ⟨?_, exists_mistyped_of_not_sound fun hsound => ?_⟩
  · cases dec with
    | domainList => exact domainListItem_fault h
    | recordListFilter => exact recordListFilterItem_fault h
  · by_cases hcomplete : dec.Complete g x
    · obtain ⟨d', hd'⟩ := (dec.itemSpec M g).goesOn x d hsound hcomplete
      rw [hd'] at h
      cases h
    · obtain ⟨d', hd'⟩ := (dec.itemSpec M g).stops x d hsound hcomplete
      rw [hd'] at h
      cases h

/-- A loop faults at one of its items. -/
theorem exists_of_visit_error {body : CJson → Dnspod → Decoded} {xs : List CJson} {d : Dnspod}
    {f : Fault} (h : visit body xs d = .error f) : ∃ x ∈ xs, ∃ d', body x d' = .error f := by
  induction xs generalizing d with
  | nil => cases h
  | cons x xs ih =>
    rw [visit] at h
    cases hx : body x d with
    | error e =>
      rw [hx] at h
      cases h
      exact ⟨x, List.mem_cons_self, d, hx⟩
    | ok r =>
      obtain ⟨b, d'⟩ := r
      rw [hx] at h
      cases b with
      | false => cases h
      | true =>
        obtain ⟨y, hy, hfault⟩ := ih h
        exact ⟨y, List.mem_cons_of_mem x hy, hfault⟩

/-- A reply with an item that calls for a member of another kind than it has. -/
def MistypedReply (M : Machine) (g : Config) (dec : Decoder) (src : Bytes) : Prop :=
  ∃ root, tretapCJsonParse M (cStr src) = .ok (some root) ∧
    ∃ x ∈ dec.items root, dec.Mistyped g x

/-- **The faults of a decoder**, on a reply without a broken escape: an exponent of the
reply is too large, or a member is of another kind. -/
theorem Decoder.decode_error (dec : Decoder) {src : Bytes}
    (hsrc : WellEscaped false (cStr src).toBytes) {d : Dnspod} {f : Fault}
    (h : dec.decode M g src d = .error f) :
    (f = .intOverflow ∧ ¬ SmallExponents (2 ^ 31) (cStr src).toBytes) ∨
      (f = .nullString ∧ MistypedReply M g dec src) := by
  cases hparse : tretapCJsonParse M (cStr src) with
  | error e =>
    rw [dec.decode_eq, decodeResponse, hparse] at h
    obtain rfl : e = f := Except.error.inj h
    rcases (parse_safe M hsrc).1 with ⟨hover, hbig⟩ | ⟨root, hroot⟩
    · exact .inl ⟨Except.error.inj (hparse.symm.trans hover), hbig⟩
    · rw [hroot] at hparse
      cases hparse
  | ok o =>
    cases o with
    | none =>
      rw [dec.decode_eq, decodeResponse, hparse] at h
      cases h
    | some root =>
      rw [decode_of_root hparse] at h
      cases hnode : dec.listNode root with
      | none =>
        rw [hnode] at h
        cases h
      | some list =>
        rw [hnode] at h
        obtain ⟨x, hx, d', hfault⟩ := exists_of_visit_error h
        obtain ⟨hf, hmis⟩ := dec.body_error hfault
        refine .inr ⟨hf, root, hparse, x, ?_, hmis⟩
        rw [Decoder.items, hnode]
        exact hx

/-- The reply of a listing goes through its decoder. -/
theorem decodeInto_error {decode : Bytes → Dnspod → Decoded} {r : Bytes × Session σ} {f : Fault}
    (h : (decodeInto decode r).1 = .error f) : decode r.1 r.2.dnspod = .error f := by
  unfold decodeInto at h
  split at h
  · next hdecode =>
    cases h
    exact hdecode
  · cases h

end Faults

/-! ## A run on a stack -/

section Run

variable (E : Env σ) (config : Bytes) (ifs : List Ifaddrs) (w : World σ)

/-- The body of the reply that a decoder gets in a run. -/
def Decoder.reply : Decoder → Bytes
  | .domainList =>
    (signedPost E (bytes "DescribeDomainList") (bytes "\x7b\x7d")
      (mainStart E config ifs w).session).1
  | .recordListFilter => listingReply E config ifs w

/-- `main` on a stack with room for `stack` levels of the reader. -/
def mainOnStack (stack : Nat) : Except Stop Unit := do
  let depth := fun dec : Decoder => readingDepth E.machine (cStr (dec.reply E config ifs w))
  let _ ← onStack stack (depth .domainList)
    (dnspodDomainList E (mainConfig config) (mainStart E config ifs w).session).1
  onStack stack (depth .recordListFilter) (main E config ifs w).1

/-- A run stops where one of its two listings does. -/
theorem main_fst_eq : (main E config ifs w).1 =
    (dnspodDomainList E (mainConfig config) (mainStart E config ifs w).session).1 >>= fun _ =>
      (afterListing E config ifs w).1.map fun _ => () := by
  have hconfig : (mainStart E config ifs w).fileConfig = mainConfig config := rfl
  unfold main afterListing afterDomainList
  simp only [hconfig]
  generalize dnspodDomainList E (mainConfig config) (mainStart E config ifs w).session = r
  obtain ⟨f | b, s⟩ := r
  · rfl
  · simp only
    generalize dnspodRecordListFilter E (mainConfig config) s = r'
    obtain ⟨f | b', s'⟩ := r' <;> rfl

end Run

/-- A run faults in a decoder, on the reply that this one gets. -/
theorem main_error {E : Env σ} {config : Bytes} {ifs : List Ifaddrs} {w : World σ} {f : Fault}
    (h : (main E config ifs w).1 = .error f) :
    ∃ (dec : Decoder) (d : Dnspod),
      dec.decode E.machine (mainConfig config) (dec.reply E config ifs w) d = .error f := by
  rw [main_fst_eq] at h
  cases hdomain : (dnspodDomainList E (mainConfig config) (mainStart E config ifs w).session).1 with
  | error f' =>
    rw [hdomain] at h
    cases h
    exact ⟨.domainList, _, decodeInto_error hdomain⟩
  | ok b =>
    cases hlist : (afterListing E config ifs w).1 with
    | error f' =>
      rw [hdomain, hlist] at h
      cases h
      exact ⟨.recordListFilter, _, decodeInto_error hlist⟩
    | ok b' =>
      rw [hdomain, hlist] at h
      cases h

/-- **No reply without a broken escape corrupts the memory of a run.** Whatever else the
server sends, on a stack with room for its nesting every run ends, or stops at an
exponent of a listing that is too large, or at a member of another type. -/
theorem main_memory_safe (E : Env σ) (stack : Nat)
    (hreply : ∀ r s, r.action.isSome →
      WellEscaped false (cStr (E.perform r s).1.body).toBytes ∧
        nesting (cStr (E.perform r s).1.body).toBytes ≤ stack)
    (config : Bytes) (ifs : List Ifaddrs) (w : World σ) :
    mainOnStack E config ifs w stack = .ok () ∨ ∃ dec : Decoder,
      (mainOnStack E config ifs w stack = .error (.fault .intOverflow) ∧
        ¬ SmallExponents (2 ^ 31) (cStr (dec.reply E config ifs w)).toBytes) ∨
      (mainOnStack E config ifs w stack = .error (.fault .nullString) ∧
        MistypedReply E.machine (mainConfig config) dec (dec.reply E config ifs w)) := by
  have hpost : ∀ (action payload : Bytes) (s : Session σ), 0 ∉ action →
      WellEscaped false (cStr (signedPost E action payload s).1).toBytes ∧
        nesting (cStr (signedPost E action payload s).1).toBytes ≤ stack := by
    intro action payload s haction
    rw [signedPost_eq]
    exact hreply _ _ (by rw [action_signedRequest E haction]; rfl)
  have hsafe : ∀ dec : Decoder, WellEscaped false (cStr (dec.reply E config ifs w)).toBytes ∧
      nesting (cStr (dec.reply E config ifs w)).toBytes ≤ stack := by
    intro dec
    cases dec with
    | domainList => exact hpost _ _ _ (by decide)
    | recordListFilter => exact hpost _ _ _ (by decide)
  have hroom : ∀ (dec : Decoder) {α : Type} (r : Except Fault α),
      onStack stack (readingDepth E.machine (cStr (dec.reply E config ifs w))) r =
        r.mapError .fault :=
    fun dec _ r => onStack_of_le ((readingDepth_le _ (hsafe dec).1).trans (hsafe dec).2) r
  have hrun : mainOnStack E config ifs w stack = (main E config ifs w).1.mapError .fault := by
    unfold mainOnStack
    simp only [hroom]
    rw [main_fst_eq]
    cases (dnspodDomainList E (mainConfig config) (mainStart E config ifs w).session).1 <;> rfl
  cases hmain : (main E config ifs w).1 with
  | ok _ =>
    rw [hrun, hmain]
    exact .inl rfl
  | error f =>
    have hstop : mainOnStack E config ifs w stack = .error (.fault f) := by
      rw [hrun, hmain]
      rfl
    obtain ⟨dec, d, hdecode⟩ := main_error hmain
    refine .inr ⟨dec, (dec.decode_error (hsafe dec).1 hdecode).imp ?_ ?_⟩
    · rintro ⟨rfl, hbig⟩
      exact ⟨hstop, hbig⟩
    · rintro ⟨rfl, hmis⟩
      exact ⟨hstop, hmis⟩

/-- Text that is no JSON, for its lone surrogate, with an exponent and a name of another
type. -/
def looseReply : Bytes :=
  bytes "\x7b\"Response\":\x7b\"DomainList\":[\x7b\"Name\":\"\\ud834\"\x7d],\"RecordList\":" ++
    bytes "[\x7b\"Name\":7e2\x7d,\x7b\"Name\":\"@\",\"Type\":\"TXT\"\x7d]\x7d\x7d"

/-- A run on it ends, on a stack for its four levels. -/
theorem main_memory_safe_loose :
    mainOnStack (replyEnv looseReply) (bytes "domain_name=example.com\n") [] ⟨(), [], 0⟩ 4 =
      .ok () := by
  have htext : (cStr looseReply).toBytes = looseReply := by decide +kernel
  have hsafe : WellEscaped false looseReply ∧ nesting looseReply ≤ 4 ∧
      SmallExponents (2 ^ 31) looseReply := by
    decide +kernel
  have hparse : tretapCJsonParse (replyEnv looseReply).machine (cStr looseReply) =
      .ok (some (parsed (replyEnv looseReply).machine looseReply)) :=
    parse_eq_parsed (by decide +kernel)
  have hreply : ∀ dec : Decoder, dec.reply (replyEnv looseReply)
      (bytes "domain_name=example.com\n") [] ⟨(), [], 0⟩ = looseReply := by
    intro dec
    cases dec <;> rfl
  have htyped : ∀ dec : Decoder, ∀ x ∈ dec.items (parsed (replyEnv looseReply).machine looseReply),
      ¬ dec.Mistyped (mainConfig (bytes "domain_name=example.com\n")) x := by
    intro dec
    unfold Decoder.Mistyped
    cases dec <;> decide +kernel
  obtain hok | ⟨dec, ⟨-, hbig⟩ | ⟨-, root, hroot, x, hx, hmis⟩⟩ :=
    main_memory_safe (replyEnv looseReply) 4
      (fun _ _ _ => ⟨htext.symm ▸ hsafe.1, htext.symm ▸ hsafe.2.1⟩)
      (bytes "domain_name=example.com\n") [] ⟨(), [], 0⟩
  · exact hok
  · rw [hreply dec, htext] at hbig
    exact absurd hsafe.2.2 hbig
  · rw [hreply dec, hparse] at hroot
    cases hroot
    exact absurd hmis (htyped dec x hx)

end DdnsCloudTencent
