import DdnsCloudTencent.Theory.Printing

/-!
# What is printed is read back

`parse_print`: a tree whose numbers are those of its `int`s is printed, in either
layout, to a text that `tretap_CJson_Parse` reads as the same tree.

- the leaves: `parseString_printStringPtr` for any C string, `parseNumber_printfD`;
- `ReadsBack`: what is asked of a node, whatever is behind its text;
- the lists of an array and an object, by induction, with the tabs and line ends of
  the layout skipped.

A number with a fraction is printed with six digits behind the point and need not
come back.
-/

namespace DdnsCloudTencent

open Cxx Json

/-! ## Strings -/

/-- The escapes of control characters, and what they are read as. -/
theorem unicode_escape (n : Nat) (h : n < 32) :
    List.replicate (4 - (numeral 16 n).length) 48 ++ numeral 16 n =
        [48, 48, digitChar (n / 16), digitChar (n % 16)] ∧
      hex4 48 48 (digitChar (n / 16)) (digitChar (n % 16)) = some n ∧
      String.utf8EncodeChar (Char.ofNat n) = [UInt8.ofNat n] := by
  revert n
  decide +kernel

/-- One byte is written so that the grammar reads it back. -/
theorem stringText_escapeChar {c : UInt8} (hc : c ≠ 0) {t s r : Bytes} (h : StringText t s r) :
    StringText (escapeChar c ++ t) (c :: s) r := by
  unfold escapeChar
  split_ifs with hplain h92 h34 h8 h12 h10 h13 h9
  · exact .plain (UInt8.lt_iff_toNat_lt.mp hplain.1) hplain.2.1 hplain.2.2 h
  all_goals try subst c
  · exact .escape rfl h
  · exact .escape rfl h
  · exact .escape rfl h
  · exact .escape rfl h
  · exact .escape rfl h
  · exact .escape rfl h
  · exact .escape rfl h
  · have hlt : c.toNat < 32 := by
      by_contra hge
      exact hplain ⟨UInt8.lt_iff_toNat_lt.mpr (by show 31 < c.toNat; omega), h34, h92⟩
    obtain ⟨hdigits, hhex, henc⟩ := unicode_escape c.toNat hlt
    have htext := StringText.unicode hhex (by omega) h
    rw [henc, UInt8.ofNat_toNat] at htext
    rw [hdigits]
    exact htext

theorem stringText_flatMap_escapeChar {s : Bytes} (hs : 0 ∉ s) (r : Bytes) :
    StringText (s.flatMap escapeChar ++ quote :: r) s r := by
  induction s with
  | nil => exact .quote
  | cons c s ih =>
    rw [List.mem_cons, not_or] at hs
    rw [List.flatMap_cons, List.append_assoc]
    exact stringText_escapeChar (Ne.symm hs.1) (ih hs.2)

theorem stringText_plain {s : Bytes} (hs : ∀ c ∈ s, 32 ≤ c ∧ c ≠ 34 ∧ c ≠ 92) (r : Bytes) :
    StringText (s ++ quote :: r) s r := by
  induction s with
  | nil => exact .quote
  | cons c s ih =>
    obtain ⟨⟨hc, hquote, hback⟩, hs⟩ := List.forall_mem_cons.mp hs
    exact .plain hc hquote hback (ih hs)

/-- A printed string is one of the grammar. -/
theorem stringText_printStringPtr (str : CStr) (r : Bytes) :
    ∃ t, (printStringPtr str).2 ++ r = quote :: t ∧ StringText t str.toBytes r := by
  unfold printStringPtr
  dsimp only
  split
  · exact ⟨_, by simp, stringText_flatMap_escapeChar str.noNul r⟩
  · next hany =>
    refine ⟨_, by simp, stringText_plain (fun c hc => ?_) r⟩
    have hc' : ¬ (c < 32 ∨ c = quote ∨ c = backslash) := by
      intro h
      refine hany (List.any_eq_true.mpr ⟨c, hc, ?_⟩)
      simpa [or_assoc] using h
    rw [not_or, not_or, UInt8.not_lt] at hc'
    exact hc'

/-- **Any C string is read back.** -/
theorem parseString_printStringPtr (str : CStr) (r : Bytes) :
    parseString ((printStringPtr str).2 ++ r) = .ok (some (str, r)) := by
  obtain ⟨t, htext, hstring⟩ := stringText_printStringPtr str r
  obtain ⟨c, hc, hparse⟩ := parseString_of_stringText hstring
  have hnonzero : nonzero str.toBytes = str.toBytes := by
    refine List.filter_eq_self.mpr fun c hc => ?_
    have hne : c ≠ 0 := fun h => str.noNul (h ▸ hc)
    simpa using hne
  rw [htext, hparse, CStr.ext (hc.trans hnonzero)]

/-! ## Numbers -/

theorem toInt32_intCast (M : Machine) {k : ℤ} (h : -2 ^ 31 ≤ k ∧ k < 2 ^ 31) :
    M.toInt32 (.finite k) = Int32.ofInt k := by
  have htrunc : Double.trunc (.finite k) = some k := by simp [Double.trunc]
  rw [Machine.toInt32, htrunc]
  exact if_pos h

/-- The text of an integer in a double. -/
theorem printNumber_intCast (i : Int32) :
    (printNumber i (.finite i.toInt)).2 = printfD i.toInt := by
  have hmin := i.le_toInt
  have hmax := i.toInt_lt
  have hdiff : ((Double.finite i.toInt).sub (.finite i.toInt)).abs = .finite 0 := by
    simp [Double.sub, Double.neg, Double.add, Double.round, Double.abs]
  have hrange : (Double.finite i.toInt).le (.finite 2147483647) = Bool.true ∧
      Double.le (.finite (-2147483648)) (.finite i.toInt) = Bool.true := by
    simp only [Double.le, decide_eq_true_eq]
    exact ⟨by exact_mod_cast (by omega : i.toInt ≤ 2147483647),
      by exact_mod_cast (by omega : -2147483648 ≤ i.toInt)⟩
  unfold printNumber
  split
  · next h0 =>
    have hzero : i.toInt = 0 := by simpa using h0
    rw [hzero]
    rfl
  · rw [hdiff, if_pos ⟨by decide +kernel, hrange⟩]

theorem parseNumber_printfD {M : Machine} (hpow : M.pow10 0 = .ofNat 1) {k : ℤ}
    (hk : k.natAbs < 2 ^ 53) {rest : Bytes} (hrest : Stops rest) :
    parseNumber M (printfD k ++ rest) =
      .ok (.number (M.toInt32 (.finite k)) (.finite k), rest) := by
  have hstop : ∀ c ∈ rest.head?, isDigit c = false := fun c hc => (hrest c hc).1
  obtain ⟨sign, hminus, hsign⟩ : ∃ sign : ℚ,
      Minus (printfD k ++ rest) sign (toDecimal k.natAbs ++ rest) ∧ sign * k.natAbs = k := by
    unfold printfD
    split
    · next hneg =>
      refine ⟨-1, .minus, ?_⟩
      rw [Nat.cast_natAbs, abs_of_neg hneg, Int.cast_neg, neg_one_mul, neg_neg]
    · next hpos =>
      refine ⟨1, .absent, ?_⟩
      rw [Nat.cast_natAbs, abs_of_nonneg (not_lt.mp hpos), one_mul]
  have hdigit : ∃ c s, toDecimal k.natAbs ++ rest = c :: s ∧ c ≠ 45 := by
    obtain ⟨c, s, hcs⟩ := List.exists_cons_of_ne_nil (numeral_ne_nil 10 k.natAbs)
    have hc := toDecimal_isDigit k.natAbs c (by rw [toDecimal, hcs]; exact List.mem_cons_self)
    refine ⟨c, s ++ rest, by rw [toDecimal, hcs]; rfl, ?_⟩
    rintro rfl
    cases hc
  have hvalue : accumulate (.finite 0) (if k.natAbs = 0 then [] else toDecimal k.natAbs) =
      .ofNat k.natAbs := by
    split
    · next h0 => simp [h0, accumulate, Double.ofNat]
    · have hnum : ofNumeral 10 (toDecimal k.natAbs) = k.natAbs :=
        ofNumeral_numeral (by decide) (by decide) k.natAbs
      rw [accumulate_digits (toDecimal_isDigit k.natAbs) (by rwa [hnum]), hnum]
  -- sign and scale change nothing
  have hscale : ((Double.finite sign).mul (.ofNat k.natAbs)).mul
      (M.pow10 (-(([] : Bytes).length : ℤ) + 0)) = .finite k := by
    have hsigned : (Double.finite sign).mul (.ofNat k.natAbs) = .finite k := by
      show Double.round (sign * (k.natAbs : ℚ)) = _
      rw [hsign, Double.round_intCast hk]
    have hone : M.pow10 (-(([] : Bytes).length : ℤ) + 0) = .ofNat 1 := hpow
    rw [hsigned, hone]
    show Double.round ((k : ℚ) * ((1 : ℕ) : ℚ)) = _
    rw [Nat.cast_one, mul_one, Double.round_intCast hk]
  rw [parseNumber_of_minus M hminus hdigit, integerPart_toDecimal _ hstop]
  simp only [fractionPart_of_stops hrest, exponentPart_of_stops hrest, hvalue]
  have hfraction : ∀ d : Double, accumulate d [] = d := fun _ => rfl
  rw [ok_bind]
  dsimp only
  rw [hfraction, hscale]

/-! ## The layout -/

theorem skip_of_lt {c : UInt8} (hc : 32 < c) (t : Bytes) : skip (c :: t) = c :: t :=
  List.dropWhile_cons_of_neg (by simpa using hc)

theorem skip_blank {c : UInt8} (hc : c ≤ 32) (t : Bytes) : skip (c :: t) = skip t :=
  List.dropWhile_cons_of_pos (by simpa using hc)

theorem skip_tabs (n : Nat) (t : Bytes) : skip (tabs n ++ t) = skip t := by
  induction n with
  | zero => rfl
  | succ n ih =>
    rw [tabs, List.replicate_succ, List.cons_append, skip_blank (by decide)]
    exact ih

theorem skip_indent (fmt : Bool) (n : Nat) (s : Bytes) :
    skip ((if fmt then tabs n else []) ++ s) = skip s := by
  cases fmt with
  | false => rfl
  | true => exact skip_tabs n s

theorem skip_line (fmt : Bool) (s : Bytes) : skip ((if fmt then [10] else []) ++ s) = skip s := by
  cases fmt with
  | false => rfl
  | true => exact skip_blank (by decide) s

/-- Blanks before an element are passed over. -/
theorem parseElements_skip (M : Machine) (fuel : Nat) {s t : Bytes} (h : skip s = skip t) :
    parseElements M fuel s = parseElements M fuel t := by
  cases fuel with
  | zero => rw [parseElements, parseElements]
  | succ fuel => rw [parseElements, parseElements, h]

theorem parseMembers_skip (M : Machine) (fuel : Nat) {s t : Bytes} (h : skip s = skip t) :
    parseMembers M fuel s = parseMembers M fuel t := by
  cases fuel with
  | zero => rw [parseMembers, parseMembers]
  | succ fuel => rw [parseMembers, parseMembers, h]

/-! ## Values -/

/-- A number whose double is the `int` beside it. -/
def IsInt (i : Int32) (d : Double) : Prop := d = .finite i.toInt

theorem head_of_printfD (k : ℤ) :
    ∃ c t, printfD k = c :: t ∧ (c = 45 ∨ isDigit c = Bool.true) := by
  unfold printfD
  split
  · exact ⟨45, _, rfl, .inl rfl⟩
  · obtain ⟨c, t, hct⟩ : ∃ c t, toDecimal k.natAbs = c :: t :=
      List.exists_cons_of_ne_nil (numeral_ne_nil 10 k.natAbs)
    exact ⟨c, t, hct, .inr (toDecimal_isDigit k.natAbs c (hct ▸ List.mem_cons_self))⟩

/-- What the text of a value starts with. -/
theorem head_of_render (fmt : Bool) {v : CJson} (h : v.AllNumbers IsInt) (depth : Nat) :
    ∃ c t, render fmt v depth = c :: t ∧ 32 < c ∧ c ≠ 93 := by
  cases h with
  | null => exact ⟨110, bytes "ull", rfl, by decide, by decide⟩
  | false => exact ⟨102, bytes "alse", rfl, by decide, by decide⟩
  | true => exact ⟨116, bytes "rue", rfl, by decide, by decide⟩
  | @number i d hd =>
    obtain rfl : d = .finite i.toInt := hd
    obtain ⟨c, t, hct, hc⟩ := head_of_printfD i.toInt
    rw [render, printNumber_intCast]
    refine ⟨c, t, hct, ?_⟩
    rcases hc with rfl | hc
    · decide
    · rw [isDigit, Bool.and_eq_true, decide_eq_true_eq, decide_eq_true_eq] at hc
      refine ⟨UInt8.lt_of_lt_of_le (by decide) hc.1, ?_⟩
      rintro rfl
      exact absurd hc.2 (by decide)
  | @string s =>
    obtain ⟨t, ht, -⟩ := stringText_printStringPtr s []
    rw [List.append_nil] at ht
    exact ⟨quote, t, ht, by decide, by decide⟩
  | array => exact ⟨91, _, rfl, by decide, by decide⟩
  | @object ms hms =>
    cases ms with
    | nil => cases fmt <;> exact ⟨123, _, rfl, by decide, by decide⟩
    | cons m ms => cases fmt <;> exact ⟨123, _, rfl, by decide, by decide⟩

/-- The reader finds a value in its text, whatever ends it. -/
def ReadsBack (M : Machine) (fmt : Bool) (v : CJson) (depth : Nat) : Prop :=
  ∀ (rest : Bytes) (fuel : Nat), Stops rest → 2 * (render fmt v depth).length + 1 ≤ fuel →
    parseValue M fuel (render fmt v depth ++ rest) = .ok (some (v, rest))

section

variable {M : Machine} {fuel : Nat} {s r r₁ t t₁ rest : Bytes} {c : CJson} {cs : List CJson}
  {name : CStr} {ms : List (CStr × CJson)}

theorem parseElements_last (hvalue : parseValue M fuel (skip s) = .ok (some (c, r)))
    (hend : skip r = 93 :: t) : parseElements M (fuel + 1) s = .ok (some ([c], t)) := by
  rw [parseElements, hvalue, ok_bind]
  dsimp only
  rw [hend]
  rfl

theorem parseElements_more (hvalue : parseValue M fuel (skip s) = .ok (some (c, r)))
    (hend : skip r = 44 :: t) (hmore : parseElements M fuel t = .ok (some (cs, rest))) :
    parseElements M (fuel + 1) s = .ok (some (c :: cs, rest)) := by
  rw [parseElements, hvalue, ok_bind]
  dsimp only
  rw [hend]
  dsimp only
  rw [if_pos rfl, hmore]
  rfl

theorem parseMembers_last (hname : parseString (skip s) = .ok (some (name, r₁)))
    (hcolon : skip r₁ = 58 :: t₁) (hvalue : parseValue M fuel (skip t₁) = .ok (some (c, r)))
    (hend : skip r = 125 :: t) : parseMembers M (fuel + 1) s = .ok (some ([(name, c)], t)) := by
  rw [parseMembers, hname, ok_bind]
  dsimp only
  rw [hcolon]
  dsimp only
  rw [if_neg (by decide), hvalue, ok_bind]
  dsimp only
  rw [hend]
  rfl

theorem parseMembers_more (hname : parseString (skip s) = .ok (some (name, r₁)))
    (hcolon : skip r₁ = 58 :: t₁) (hvalue : parseValue M fuel (skip t₁) = .ok (some (c, r)))
    (hend : skip r = 44 :: t) (hmore : parseMembers M fuel t = .ok (some (ms, rest))) :
    parseMembers M (fuel + 1) s = .ok (some ((name, c) :: ms, rest)) := by
  rw [parseMembers, hname, ok_bind]
  dsimp only
  rw [hcolon]
  dsimp only
  rw [if_neg (by decide), hvalue, ok_bind]
  dsimp only
  rw [hend]
  dsimp only
  rw [if_pos rfl, hmore]
  rfl

end

/-- Nothing that a printed value stands before continues a number. -/
theorem stops_cons {c : UInt8} (h : c = 44 ∨ c = 93 ∨ c = 125 ∨ c = 10 ∨ c = 9) (t : Bytes) :
    Stops (c :: t) := by
  rcases h with rfl | rfl | rfl | rfl | rfl <;> simp [Stops, isDigit]

theorem skip_render (fmt : Bool) {v : CJson} (h : v.AllNumbers IsInt) (depth : Nat) (s : Bytes) :
    skip (render fmt v depth ++ s) = render fmt v depth ++ s := by
  obtain ⟨c, t, hhead, hc, -⟩ := head_of_render fmt h depth
  rw [hhead]
  exact skip_of_lt hc _

theorem parseElements_compose {M : Machine} {fmt : Bool} {depth : Nat} {cs : List CJson}
    (hne : cs ≠ []) (hcs : ∀ c ∈ cs, c.AllNumbers IsInt)
    (h : ∀ c ∈ cs, ReadsBack M fmt c depth) (rest : Bytes) (fuel : Nat)
    (hfuel : 2 * (composeEntries fmt (renderEntries fmt cs depth)).length + 2 ≤ fuel) :
    parseElements M fuel (composeEntries fmt (renderEntries fmt cs depth) ++ 93 :: rest) =
      .ok (some (cs, rest)) := by
  induction cs generalizing fuel with
  | nil => exact absurd rfl hne
  | cons c cs ih =>
    obtain ⟨hc, hrest⟩ := List.forall_mem_cons.mp h
    obtain ⟨hint, hints⟩ := List.forall_mem_cons.mp hcs
    obtain ⟨fuel, rfl⟩ : ∃ n, fuel = n + 1 := ⟨fuel - 1, by omega⟩
    rw [renderEntries, composeEntries] at hfuel ⊢
    simp only [List.length_append] at hfuel
    cases cs with
    | nil =>
      rw [renderEntries, if_pos rfl, composeEntries, List.append_nil, List.append_nil]
      refine parseElements_last ?_ (skip_of_lt (by decide) rest)
      rw [skip_render fmt hint]
      exact hc _ _ (stops_cons (by decide) rest) (by omega)
    | cons c' cs =>
      have hmore := ih (List.cons_ne_nil _ _) hints hrest fuel (by
        obtain ⟨b, t, hhead, -, -⟩ := head_of_render fmt hint depth
        rw [hhead, List.length_cons] at hfuel
        omega)
      rw [if_neg (by simp [renderEntries])] at hfuel ⊢
      -- the comma, and the blank that the layout puts behind it
      obtain ⟨blank, hsep, hblank⟩ : ∃ blank, (if fmt then ([44, 32] : Bytes) else [44]) =
          44 :: blank ∧ ∀ s, skip (blank ++ s) = skip s := by
        cases fmt with
        | false => exact ⟨[], rfl, fun _ => rfl⟩
        | true => exact ⟨[32], rfl, fun s => skip_blank (by decide) s⟩
      rw [hsep] at hfuel ⊢
      rw [List.append_assoc, List.append_assoc, List.cons_append]
      refine parseElements_more ?_ (skip_of_lt (by decide) _)
        ((parseElements_skip M fuel (hblank _)).trans hmore)
      rw [skip_render fmt hint]
      exact hc _ _ (stops_cons (by decide) _) (by omega)

theorem skip_printStringPtr (name : CStr) (s : Bytes) :
    skip ((printStringPtr name).2 ++ s) = (printStringPtr name).2 ++ s := by
  obtain ⟨t, ht, -⟩ := stringText_printStringPtr name s
  rw [ht]
  exact skip_of_lt (by decide) t

/-- The first name. -/
theorem skip_composeMembers (fmt : Bool) (depth : Nat) {ms : List (CStr × CJson)} (hne : ms ≠ [])
    (s : Bytes) :
    ∃ t, skip (composeMembers fmt depth (renderMembers fmt ms depth) ++ s) = quote :: t := by
  obtain ⟨⟨name, v⟩, ms, rfl⟩ := List.exists_cons_of_ne_nil hne
  rw [renderMembers, composeMembers]
  simp only [List.append_assoc]
  rw [skip_indent, skip_printStringPtr]
  obtain ⟨t, ht, -⟩ := stringText_printStringPtr name _
  exact ⟨t, ht⟩

theorem parseMembers_compose {M : Machine} {fmt : Bool} {depth : Nat} {ms : List (CStr × CJson)}
    (hne : ms ≠ []) (hms : ∀ m ∈ ms, m.2.AllNumbers IsInt)
    (h : ∀ m ∈ ms, ReadsBack M fmt m.2 depth) {close rest : Bytes} (hstops : Stops close)
    (hclose : skip close = 125 :: rest) (fuel : Nat)
    (hfuel : 2 * (composeMembers fmt depth (renderMembers fmt ms depth)).length + 2 ≤ fuel) :
    parseMembers M fuel (composeMembers fmt depth (renderMembers fmt ms depth) ++ close) =
      .ok (some (ms, rest)) := by
  induction ms generalizing fuel with
  | nil => exact absurd rfl hne
  | cons m ms ih =>
    obtain ⟨name, v⟩ := m
    obtain ⟨hv, hrest⟩ := List.forall_mem_cons.mp h
    obtain ⟨hint, hints⟩ := List.forall_mem_cons.mp hms
    dsimp only at hv hint
    obtain ⟨fuel, rfl⟩ : ∃ n, fuel = n + 1 := ⟨fuel - 1, by omega⟩
    rw [renderMembers, composeMembers] at hfuel ⊢
    simp only [List.length_append] at hfuel
    obtain ⟨blank, hcolon, hblank⟩ : ∃ blank, (if fmt then ([58, 9] : Bytes) else [58]) =
        58 :: blank ∧ ∀ s, skip (blank ++ s) = skip s := by
      cases fmt with
      | false => exact ⟨[], rfl, fun _ => rfl⟩
      | true => exact ⟨[9], rfl, fun s => skip_blank (by decide) s⟩
    rw [hcolon] at hfuel ⊢
    rw [List.length_cons] at hfuel
    simp only [List.append_assoc, List.cons_append]
    have hname : ∀ s, parseString (skip ((if fmt then tabs depth else []) ++
        ((printStringPtr name).2 ++ s))) = .ok (some (name, s)) := by
      intro s
      rw [skip_indent, skip_printStringPtr, parseString_printStringPtr]
    cases ms with
    | nil =>
      rw [renderMembers, if_pos rfl, composeMembers, List.nil_append, List.nil_append]
      refine parseMembers_last (hname _) (skip_of_lt (by decide) _) ?_
        ((skip_line fmt _).trans hclose)
      rw [hblank, skip_render fmt hint]
      refine hv _ _ ?_ (by omega)
      cases fmt with
      | false => exact hstops
      | true => exact stops_cons (by decide) close
    | cons m' ms =>
      have hmore := ih (List.cons_ne_nil _ _) hints hrest fuel (by omega)
      have hnil : renderMembers fmt (m' :: ms) depth ≠ [] := by simp [renderMembers_eq_map]
      rw [if_neg hnil, List.singleton_append]
      refine parseMembers_more (hname _) (skip_of_lt (by decide) _) ?_
        (skip_of_lt (by decide) _) ((parseMembers_skip M fuel (skip_line fmt _)).trans hmore)
      rw [hblank, skip_render fmt hint]
      exact hv _ _ (stops_cons (by decide) _) (by omega)

/-- By induction on the tree. -/
theorem parseValue_render {M : Machine} (hpow : M.pow10 0 = .ofNat 1) (fmt : Bool) {v : CJson}
    (h : v.AllNumbers IsInt) (depth : Nat) : ReadsBack M fmt v depth := by
  induction h generalizing depth with
  | null =>
    intro rest fuel _ hfuel
    obtain ⟨fuel, rfl⟩ : ∃ n, fuel = n + 1 := ⟨fuel - 1, by omega⟩
    rfl
  | false =>
    intro rest fuel _ hfuel
    obtain ⟨fuel, rfl⟩ : ∃ n, fuel = n + 1 := ⟨fuel - 1, by omega⟩
    rfl
  | true =>
    intro rest fuel _ hfuel
    obtain ⟨fuel, rfl⟩ : ∃ n, fuel = n + 1 := ⟨fuel - 1, by omega⟩
    rfl
  | @number i d hd =>
    intro rest fuel hrest hfuel
    obtain ⟨fuel, rfl⟩ : ∃ n, fuel = n + 1 := ⟨fuel - 1, by omega⟩
    obtain rfl : d = .finite i.toInt := hd
    have hmin := i.le_toInt
    have hmax := i.toInt_lt
    have hparse := parseNumber_printfD hpow (k := i.toInt) (by omega) hrest
    rw [toInt32_intCast M ⟨hmin, hmax⟩, Int32.ofInt_toInt] at hparse
    obtain ⟨c, t, hct, hc⟩ := head_of_printfD i.toInt
    rw [render, printNumber_intCast, hct, List.cons_append, parseValue_number M fuel hc,
      ← List.cons_append, ← hct, hparse]
    rfl
  | @string s =>
    intro rest fuel _ hfuel
    obtain ⟨fuel, rfl⟩ : ∃ n, fuel = n + 1 := ⟨fuel - 1, by omega⟩
    obtain ⟨t, ht, -⟩ := stringText_printStringPtr s rest
    have hparse := parseString_printStringPtr s rest
    rw [render, ht, parseValue_string]
    rw [ht] at hparse
    rw [hparse]
    rfl
  | @array cs hcs ih =>
    intro rest fuel _ hfuel
    obtain ⟨fuel, rfl⟩ : ∃ n, fuel = n + 1 := ⟨fuel - 1, by omega⟩
    rw [render, List.length_append, List.length_cons, List.length_singleton] at hfuel
    rw [render, List.append_assoc, List.cons_append, List.singleton_append]
    cases cs with
    | nil => exact parseValue_emptyArray M fuel rfl
    | cons c cs =>
      have helements := parseElements_compose (List.cons_ne_nil c cs) hcs
        (fun c hc => ih c hc (depth + 1)) rest fuel (by omega)
      obtain ⟨d, t, hd, hlt, hne⟩ :=
        head_of_render fmt (hcs c List.mem_cons_self) (depth + 1)
      rw [renderEntries, composeEntries, hd, List.cons_append, List.cons_append,
        List.cons_append] at helements ⊢
      rw [parseValue_array M fuel (skip_of_lt hlt _) hne, helements]
      rfl
  | @object ms hms ih =>
    intro rest fuel _ hfuel
    obtain ⟨fuel, rfl⟩ : ∃ n, fuel = n + 1 := ⟨fuel - 1, by omega⟩
    cases ms with
    | nil =>
      obtain ⟨s, hs, hskip⟩ : ∃ s, render fmt (.object []) depth ++ rest = 123 :: s ∧
          skip s = 125 :: rest := by
        cases fmt with
        | false => exact ⟨125 :: rest, rfl, skip_of_lt (by decide) rest⟩
        | true =>
          refine ⟨10 :: (tabs (depth - 1) ++ 125 :: rest), by simp [render, emptyObject], ?_⟩
          rw [skip_blank (by decide), skip_tabs, skip_of_lt (by decide)]
      rw [hs]
      exact parseValue_emptyObject M fuel hskip
    | cons m ms =>
      rw [render] at hfuel ⊢
      simp only [List.length_append] at hfuel
      simp only [List.append_assoc]
      have hframe : 0 < (if fmt then ([123, 10] : Bytes) else [123]).length := by
        cases fmt <;> decide
      -- what stands behind the members
      have hclose : skip ((if fmt then tabs depth else []) ++ ([125] ++ rest)) = 125 :: rest := by
        rw [skip_indent]
        exact skip_of_lt (by decide) rest
      have hstops : Stops ((if fmt then tabs depth else []) ++ ([125] ++ rest)) := by
        cases fmt with
        | false => exact stops_cons (by decide) rest
        | true =>
          cases depth with
          | zero => exact stops_cons (by decide) rest
          | succ depth => exact stops_cons (by decide) _
      have hmembers := parseMembers_compose (List.cons_ne_nil m ms) hms
        (fun m hm => ih m hm (depth + 1)) hstops hclose fuel (by omega)
      obtain ⟨t, ht⟩ := skip_composeMembers fmt (depth + 1)
        (List.cons_ne_nil m ms) ((if fmt then tabs depth else []) ++ ([125] ++ rest))
      have hbrace : ∀ s, (if fmt then ([123, 10] : Bytes) else [123]) ++ s =
          123 :: ((if fmt then [10] else []) ++ s) := by
        cases fmt <;> exact fun _ => rfl
      rw [hbrace, parseValue_object M fuel ((skip_line fmt _).trans ht) (by decide),
        parseMembers_skip M fuel ((skip_of_lt (by decide) t).trans ht.symm), hmembers]
      rfl

theorem isDouble_of_isInt {i : Int32} {d : Double} (h : IsInt i d) : d.IsDouble := by
  have hmin := i.le_toInt
  have hmax := i.toInt_lt
  obtain rfl : d = .finite i.toInt := h
  exact Double.round_intCast (by omega)

theorem CJson.AllNumbers.mono {p q : Int32 → Double → Prop} (hpq : ∀ i d, p i d → q i d)
    {v : CJson} (h : v.AllNumbers p) : v.AllNumbers q := by
  induction h with
  | null => exact .null
  | false => exact .false
  | true => exact .true
  | number hd => exact .number (hpq _ _ hd)
  | string => exact .string
  | array _ ih => exact .array ih
  | object _ ih => exact .object ih

/-- **What is printed is read back** as the same tree, in either layout, with nothing
behind it. Only a text near the range of an `int` is not printed. -/
theorem parse_print {M : Machine} (hpow : M.pow10 0 = .ofNat 1) (fmt : Bool) {v : CJson}
    (h : v.AllNumbers IsInt) :
    (∃ out, printValue fmt v 0 = .ok out ∧
        tretapCJsonParseWithOpts M out true = .ok (some (v, [])) ∧
        tretapCJsonParse M out = .ok (some v)) ∨
      (printValue fmt v 0 = .error .intOverflow ∧
        2 ^ 31 ≤ 2 * (render fmt v 0).length + 64) := by
  have hdouble := h.mono fun _ _ => isDouble_of_isInt
  rcases printValue_prints fmt hdouble 0 with hout | hbig
  · have htext := toBytes_of_printValue hdouble hout
    have hskip := skip_render fmt h 0 []
    have hparse := parseValue_render hpow fmt h 0 [] (2 * (render fmt v 0).length + 2)
      stops_nil (by omega)
    rw [List.append_nil] at hskip hparse
    refine .inl ⟨_, hout, ?_⟩
    unfold tretapCJsonParseWithOpts tretapCJsonParse
    rw [htext, hskip, hparse]
    exact ⟨rfl, rfl⟩
  · exact .inr hbig

/-- A tree with nesting, an escape and a negative number. -/
def negativeTree : CJson :=
  .object [(cStr (bytes "a\"b\n"), .array [.null, .number (-7) (.finite (-7))]),
    (cStr (bytes "c"), .object [])]

theorem negativeTree_ints : negativeTree.AllNumbers IsInt := by
  have hseven : Int32.toInt (-7) = -7 := rfl
  refine .object fun m hm => ?_
  rcases List.mem_cons.mp hm with rfl | hm
  · refine .array fun c hc => ?_
    rcases List.mem_cons.mp hc with rfl | hc
    · exact .null
    · rw [List.mem_singleton.mp hc]
      exact .number (by simp [IsInt, hseven])
  · rw [List.mem_singleton.mp hm]
    exact .object nofun

theorem negativeTree_small (fmt : Bool) :
    ¬ 2 ^ 31 ≤ 2 * (render fmt negativeTree 0).length + 64 := by
  revert fmt
  decide +kernel

theorem nearestMachine_pow10 : nearestMachine.pow10 0 = .ofNat 1 := by
  have hone := Double.round_natCast (n := 1) (by norm_num)
  rw [Nat.cast_one] at hone
  show Double.round (10 ^ (0 : ℤ)) = _
  rw [zpow_zero, hone]

/-- The formatted tree. -/
theorem parse_print_negative : ∃ out, printValue Bool.true negativeTree 0 = .ok out ∧
    tretapCJsonParseWithOpts nearestMachine out Bool.true = .ok (some (negativeTree, [])) ∧
      tretapCJsonParse nearestMachine out = .ok (some negativeTree) :=
  (parse_print nearestMachine_pow10 Bool.true negativeTree_ints).resolve_right
    fun h => negativeTree_small _ h.2

end DdnsCloudTencent
