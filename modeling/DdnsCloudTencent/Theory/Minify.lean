import DdnsCloudTencent.Lib.JsonLayout
import DdnsCloudTencent.Theory.PrintRoundTrip

/-!
# What minifying keeps

`tretap_CJson_Minify` is a compactor (`minify_compactor`): outside strings it leaves out
white space and copies the tokens, and it copies strings as they are. So

- `minify_denotes`: JSON text keeps its value and loses all white space outside its
  strings, and minifying again changes nothing;
- `minify_print`: minifying the formatted print of a tree gives the unformatted one.
-/

namespace DdnsCloudTencent

open Cxx Json

theorem minify_map_nil (x : Except Fault Bytes) : x.map (([] : Bytes) ++ ·) = x := by
  cases x <;> rfl

/-! ## The rules -/

theorem minify_blank {c : UInt8} (hc : isWs c = true) (s : Bytes) :
    minifyFrom .text (c :: s) = minifyFrom .text s := by
  have hblank : c = 32 ∨ c = 9 ∨ c = 13 ∨ c = 10 := by
    simp only [isWs, Bool.or_eq_true, beq_iff_eq] at hc
    rcases hc with ((rfl | rfl) | rfl) | rfl <;> decide
  rw [minifyFrom, if_pos hblank]

theorem minify_token {c : UInt8} (hc : TokenByte c) (s : Bytes) :
    minifyFrom .text (c :: s) = (minifyFrom .text s).map (c :: ·) := by
  obtain ⟨hws, hquote, hslash⟩ := hc
  have hblank : ¬ (c = 32 ∨ c = 9 ∨ c = 13 ∨ c = 10) := by
    rintro (rfl | rfl | rfl | rfl) <;> cases hws
  rw [minifyFrom, if_neg hblank, if_neg fun h => hslash h.1, if_neg fun h => hslash h.1,
    if_neg hquote]

theorem minify_plain {c : UInt8} (hquote : c ≠ 34) (hback : c ≠ 92) {t : Bytes} (ht : t ≠ []) :
    minifyFrom .string (c :: t) = (minifyFrom .string t).map (c :: ·) := by
  obtain ⟨d, t, rfl⟩ := List.exists_cons_of_ne_nil ht
  rw [minifyFrom, if_neg hquote, if_neg hback]

/-- The closing quotation mark. -/
theorem minify_quote (r : Bytes) :
    minifyFrom .string (34 :: r) = (minifyFrom .text r).map (34 :: ·) := by
  cases r with
  | nil => rfl
  | cons d r => exact if_pos rfl

theorem minify_escape (e : UInt8) (t : Bytes) :
    minifyFrom .string (92 :: e :: t) = (minifyFrom .string t).map fun w => 92 :: e :: w := by
  rw [minifyFrom, if_neg (by decide), if_pos rfl]

theorem minify_hex4 {h₁ h₂ h₃ h₄ : UInt8} {k : Nat} (h : hex4 h₁ h₂ h₃ h₄ = some k) {t : Bytes}
    (ht : t ≠ []) : minifyFrom .string (h₁ :: h₂ :: h₃ :: h₄ :: t) =
      (minifyFrom .string t).map fun w => h₁ :: h₂ :: h₃ :: h₄ :: w := by
  obtain ⟨hne₁, hne₂, hne₃, hne₄, -⟩ := by simpa only [List.forall_mem_cons] using ne_of_hex4 h
  rw [minify_plain hne₁.1 hne₁.2 (List.cons_ne_nil _ _),
    minify_plain hne₂.1 hne₂.2 (List.cons_ne_nil _ _),
    minify_plain hne₃.1 hne₃.2 (List.cons_ne_nil _ _), minify_plain hne₄.1 hne₄.2 ht]
  cases minifyFrom .string t <;> rfl

/-- A string is copied as a whole. -/
theorem minify_stringText {t s r : Bytes} (h : StringText t s r) :
    ∃ u, t = u ++ r ∧ u ≠ [] ∧
      ∀ r', minifyFrom .string (u ++ r') = (minifyFrom .text r').map (u ++ ·) := by
  induction h with
  | quote => exact ⟨[34], rfl, List.cons_ne_nil _ _, minify_quote⟩
  | plain _ hquote hback _ ih =>
    obtain ⟨u, rfl, hne, hu⟩ := ih
    refine ⟨_ :: u, rfl, List.cons_ne_nil _ _, fun r' => ?_⟩
    rw [List.cons_append, minify_plain hquote hback (by simp [hne]), hu]
    cases minifyFrom .text r' <;> rfl
  | escape _ _ ih =>
    obtain ⟨u, rfl, hne, hu⟩ := ih
    refine ⟨92 :: _ :: u, rfl, List.cons_ne_nil _ _, fun r' => ?_⟩
    rw [List.cons_append, List.cons_append, minify_escape, hu]
    cases minifyFrom .text r' <;> rfl
  | unicode hhex _ _ ih =>
    obtain ⟨u, rfl, hne, hu⟩ := ih
    refine ⟨92 :: 117 :: _ :: _ :: _ :: _ :: u, rfl, List.cons_ne_nil _ _, fun r' => ?_⟩
    simp only [List.cons_append]
    rw [minify_escape, minify_hex4 hhex (by simp [hne]), hu]
    cases minifyFrom .text r' <;> rfl
  | surrogates hhi hlo _ _ _ ih =>
    obtain ⟨u, rfl, hne, hu⟩ := ih
    refine ⟨92 :: 117 :: _ :: _ :: _ :: _ :: 92 :: 117 :: _ :: _ :: _ :: _ :: u, rfl,
      List.cons_ne_nil _ _, fun r' => ?_⟩
    simp only [List.cons_append]
    rw [minify_escape, minify_hex4 hhi (List.cons_ne_nil _ _), minify_escape,
      minify_hex4 hlo (by simp [hne]), hu]
    cases minifyFrom .text r' <;> rfl

/-- **Minifying is compacting.** -/
theorem minify_compactor : Compactor (minifyFrom .text) where
  nil := rfl
  blank hc r := (minify_blank hc r).trans (minify_map_nil _).symm
  token hc r := minify_token hc r
  string {u s r} h r' := by
    obtain ⟨u', heq, -, hu'⟩ := minify_stringText h
    obtain rfl := List.append_cancel_right heq
    have hopen : minifyFrom .text (34 :: (u ++ r')) =
        (minifyFrom .string (u ++ r')).map (34 :: ·) := by
      rw [minifyFrom, if_neg (by decide), if_neg (fun h => absurd h.1 (by decide)),
        if_neg (fun h => absurd h.1 (by decide)), if_pos rfl]
    rw [List.cons_append, hopen, hu']
    cases minifyFrom .text r' <;> rfl

/-- **Minifying keeps the value** of JSON text, and leaves no white space outside its
strings; minifying again changes nothing. -/
theorem minify_denotes {json : CStr} {v : Value} (h : Denotes json.toBytes v) :
    ∃ text, tretapCJsonMinify json = .ok text ∧ Denotes text v ∧ Compact text ∧
      tretapCJsonMinify (cStr text) = .ok text := by
  obtain ⟨text, hminify, herased, hdenotes, hcompact, hagain⟩ := minify_compactor.denotes h
  have h0 : 0 ∉ text := fun h => json.noNul (herased.subset h)
  refine ⟨text, hminify, hdenotes, hcompact, ?_⟩
  rw [tretapCJsonMinify, cStr_toBytes_of_noNul h0]
  exact hagain

theorem minify_denotes_escaped : ∃ text, tretapCJsonMinify (cStr escapedRecord) = .ok text ∧
    Denotes text (.object plainRecord.toMembers) ∧ Compact text ∧
      tretapCJsonMinify (cStr text) = .ok text :=
  minify_denotes denotes_escapedRecord

/-! ## Printed trees -/

theorem tokenByte_of_isNumberByte {c : UInt8} (h : IsNumberByte c) : TokenByte c := by
  rcases h with hc | hc
  · exact tokenByte_of_isNumberChar (isNumberChar_of_isDigit hc)
  · exact (by decide : ∀ c ∈ bytes "+-.aefin", TokenByte c) c hc

theorem emits_printStringPtr (str : CStr) :
    Emits (minifyFrom .text) (printStringPtr str).2 (printStringPtr str).2 := by
  obtain ⟨t, ht, htext⟩ := stringText_printStringPtr str []
  rw [List.append_nil] at ht
  rw [ht]
  exact minify_compactor.string (r := []) (by rwa [List.append_nil])

theorem emits_tabs (n : Nat) : Emits (minifyFrom .text) (tabs n) [] := by
  induction n with
  | zero => exact .nil
  | succ n ih => exact (minify_compactor.blank rfl).append ih

theorem emits_token {c : UInt8} (hc : TokenByte c) : Emits (minifyFrom .text) [c] [c] :=
  minify_compactor.token hc

theorem emits_composeEntries {es es' : List Bytes}
    (h : List.Forall₂ (Emits (minifyFrom .text)) es es') :
    Emits (minifyFrom .text) (composeEntries Bool.true es) (composeEntries Bool.false es') := by
  induction h with
  | nil => exact .nil
  | @cons e e' es es' he hes ih =>
    have hsep : Emits (minifyFrom .text) (if es = [] then [] else [44, 32])
        (if es' = [] then [] else [44]) := by
      cases hes with
      | nil => exact .nil
      | cons _ _ => exact (emits_token (by decide)).append (minify_compactor.blank (c := 32) rfl)
    exact (he.append hsep).append ih

theorem emits_composeMembers (n n' : Nat) {ms ms' : List (Bytes × Bytes)}
    (h : List.Forall₂ (fun m m' => Emits (minifyFrom .text) m.1 m'.1 ∧
      Emits (minifyFrom .text) m.2 m'.2) ms ms') :
    Emits (minifyFrom .text) (composeMembers Bool.true n ms)
      (composeMembers Bool.false n' ms') := by
  induction h with
  | nil => exact .nil
  | @cons m m' ms ms' hm hms ih =>
    have hsep : Emits (minifyFrom .text) (if ms = [] then [] else [44])
        (if ms' = [] then [] else [44]) := by
      cases hms with
      | nil => exact .nil
      | cons _ _ => exact emits_token (by decide)
    have hcolon : Emits (minifyFrom .text) [58, 9] [58] :=
      (emits_token (by decide)).append (minify_compactor.blank (c := 9) rfl)
    have hline : Emits (minifyFrom .text) [10] [] := minify_compactor.blank rfl
    exact ((((((emits_tabs n).append hm.1).append hcolon).append hm.2).append hsep).append
      hline).append ih

theorem emits_render {p : Int32 → Double → Prop} {v : CJson} (h : v.AllNumbers p) (n n' : Nat) :
    Emits (minifyFrom .text) (render Bool.true v n) (render Bool.false v n') := by
  induction h generalizing n n' with
  | null => exact minify_compactor.tokens (u := bytes "null") (by decide)
  | false => exact minify_compactor.tokens (u := bytes "false") (by decide)
  | true => exact minify_compactor.tokens (u := bytes "true") (by decide)
  | number _ =>
    exact minify_compactor.tokens fun c hc =>
      tokenByte_of_isNumberByte (isNumberByte_printNumber _ _ c hc)
  | string => exact emits_printStringPtr _
  | @array cs _ ih =>
    have hentries : List.Forall₂ (Emits (minifyFrom .text)) (renderEntries Bool.true cs (n + 1))
        (renderEntries Bool.false cs (n' + 1)) := by
      rw [renderEntries_eq_map, renderEntries_eq_map, List.forall₂_map_left_iff,
        List.forall₂_map_right_iff]
      exact List.forall₂_same.mpr fun c hc => ih c hc _ _
    exact ((emits_token (c := 91) (by decide)).append (emits_composeEntries hentries)).append
      (emits_token (by decide))
  | @object ms _ ih =>
    cases ms with
    | nil =>
      exact (((emits_token (c := 123) (by decide)).append (minify_compactor.blank (c := 10)
        rfl)).append (emits_tabs (n - 1))).append (emits_token (c := 125) (by decide))
    | cons m ms =>
      have hmembers : List.Forall₂ (fun m m' => Emits (minifyFrom .text) m.1 m'.1 ∧
          Emits (minifyFrom .text) m.2 m'.2) (renderMembers Bool.true (m :: ms) (n + 1))
          (renderMembers Bool.false (m :: ms) (n' + 1)) := by
        rw [renderMembers_eq_map, renderMembers_eq_map, List.forall₂_map_left_iff,
          List.forall₂_map_right_iff]
        exact List.forall₂_same.mpr fun m hm => ⟨emits_printStringPtr m.1, ih m hm _ _⟩
      have hopen : Emits (minifyFrom .text) [123, 10] [123] :=
        (emits_token (by decide)).append (minify_compactor.blank (c := 10) rfl)
      exact ((hopen.append (emits_composeMembers _ _ hmembers)).append (emits_tabs n)).append
        (emits_token (by decide))

/-- **Minifying the formatted print gives the unformatted one**, unless a size near the
range of an `int` keeps one of them from being printed. -/
theorem minify_print {v : CJson} (h : v.AllNumbers fun _ d => d.IsDouble) :
    (∃ out out', tretapCJsonPrint v = .ok out ∧ tretapCJsonPrintUnformatted v = .ok out' ∧
        tretapCJsonMinify out = .ok out'.toBytes) ∨
      ∃ fmt, printValue fmt v 0 = .error .intOverflow ∧
        2 ^ 31 ≤ 2 * (render fmt v 0).length + 64 := by
  rcases printValue_prints Bool.true h 0 with hout | hbig
  · rcases printValue_prints Bool.false h 0 with hout' | hbig
    · refine .inl ⟨_, _, hout, hout', ?_⟩
      have hemits := emits_render h 0 0 []
      rw [List.append_nil] at hemits
      rw [tretapCJsonMinify, toBytes_of_printValue h hout, toBytes_of_printValue h hout', hemits]
      exact congrArg Except.ok (List.append_nil _)
    · exact .inr ⟨_, hbig⟩
  · exact .inr ⟨_, hbig⟩

theorem minify_print_negative : ∃ out out', tretapCJsonPrint negativeTree = .ok out ∧
    tretapCJsonPrintUnformatted negativeTree = .ok out' ∧
      tretapCJsonMinify out = .ok out'.toBytes :=
  (minify_print (negativeTree_ints.mono fun _ _ => isDouble_of_isInt)).resolve_right
    fun ⟨fmt, _, hbig⟩ => negativeTree_small fmt hbig

end DdnsCloudTencent
