import DdnsCloudTencent.Lib.Json
import DdnsCloudTencent.Util.CJson

/-!
# The trees that the JSON reader returns (util/tretap_CJSON.c)

- `Ends`: a parser has not used up its fuel, and where it returns a node the
  unread text is no longer than the input; `Ends.map` and `Ends.mono` carry it
  through the grammar;
- `Narrow`: every `valueint` of a tree is its `valuedouble` cast to `int`;
- `parse_ends`: both hold of what `tretap_CJson_Parse` returns, so the fuel of
  the model never runs out (`parse_ne_outOfFuel`);
- `parseNumber_toDecimal`: a decimal numeral below 2^53 is read as exactly its
  number, whatever the powers of ten other than `pow(10, 0)` are.
-/

namespace DdnsCloudTencent

open Cxx

/-- Every number of the tree carries its own narrowing (tretap_CJSON.c:115). -/
inductive CJson.Narrow (M : Machine) : CJson → Prop where
  | false : Narrow M .false
  | true : Narrow M .true
  | null : Narrow M .null
  | number (d : Double) : Narrow M (.number (M.toInt32 d) d)
  | string (s : CStr) : Narrow M (.string s)
  | array (cs : List CJson) (h : ∀ c ∈ cs, Narrow M c) : Narrow M (.array cs)
  | object (ms : List (CStr × CJson)) (h : ∀ m ∈ ms, Narrow M m.2) : Narrow M (.object ms)

/-- A parser that has not run out of fuel, and what it returns. -/
def Ends {α : Type} (P : α → Prop) (n : Nat) : Except Fault (Option (α × Bytes)) → Prop
  | .error f => f ≠ .outOfFuel
  | .ok none => True
  | .ok (some (x, rest)) => P x ∧ rest.length ≤ n

section Ends

variable {α β : Type} {P : α → Prop} {Q : β → Prop} {m n : Nat}

theorem Ends.mono {r : Except Fault (Option (α × Bytes))} (h : Ends P n r) (hnm : n ≤ m) :
    Ends P m r := by
  match r, h with
  | .error _, h => exact h
  | .ok none, _ => exact trivial
  | .ok (some _), h => exact ⟨h.1, h.2.trans hnm⟩

theorem Ends.map {r : Except Fault (Option (α × Bytes))} (h : Ends P n r) {f : α → β}
    (hf : ∀ x, P x → Q (f x)) :
    Ends Q n (r.map fun o => o.map fun x => (f x.1, x.2)) := by
  match r, h with
  | .error _, h => exact h
  | .ok none, _ => exact trivial
  | .ok (some _), h => exact ⟨hf _ h.1, h.2⟩

/-- A parser after another one. -/
theorem Ends.bind {r : Except Fault (Option (α × Bytes))} (h : Ends P n r)
    {k : Option (α × Bytes) → Except Fault (Option (β × Bytes))} (hnone : k none = .ok none)
    (hk : ∀ x rest, P x → rest.length ≤ n → Ends Q m (k (some (x, rest)))) :
    Ends Q m (r >>= k) := by
  match r, h with
  | .error _, h => exact h
  | .ok none, _ =>
    show Ends Q m (k none)
    rw [hnone]
    exact trivial
  | .ok (some (x, rest)), h => exact hk x rest h.1 h.2

end Ends

/-! ## Strings and numbers -/

theorem scanString_ne_outOfFuel (s : Bytes) : scanString s ≠ .error .outOfFuel := by
  have hmap : ∀ r : Except Fault Nat, r ≠ .error .outOfFuel →
      r.map (· + 1) ≠ .error .outOfFuel := by
    intro r h
    cases r with
    | error e => exact fun he => h (congrArg Except.error (Except.error.inj he))
    | ok x => exact nofun
  fun_induction scanString s <;> first | exact hmap _ ‹_› | simp

/-- The second loop of `parse_string`: it stops within its input. -/
theorem unescape_ends (s : Bytes) :
    Ends (fun _ => True) s.length ((unescape s).map some) := by
  have hmap : ∀ {r : Except Fault (Bytes × Bytes)} (g : Bytes × Bytes → Bytes × Bytes) {m n : Nat},
      (∀ x, (g x).2 = x.2) → Ends (fun _ => True) m (r.map some) → m ≤ n →
      Ends (fun _ => True) n ((r.map g).map some) := by
    intro r g m n hg h hmn
    cases r with
    | error e => exact h
    | ok x => exact ⟨trivial, (congrArg List.length (hg x)).le.trans (h.2.trans hmn)⟩
  fun_induction unescape s <;>
    first
    | exact hmap _ (fun _ => rfl) ‹_› (by simp only [List.length_cons]; omega)
    | exact Ends.mono ‹_› (by simp only [List.length_cons]; omega)
    | simp [Ends, Except.map]

/-- `parse_string` stops within its input. -/
theorem parseString_ends (s : Bytes) : Ends (fun _ => True) s.length (parseString s) := by
  cases s with
  | nil => exact trivial
  | cons c s =>
    rw [parseString]
    split
    · exact trivial
    -- the first loop only measures; the second one moves on in the text
    · have hscan := scanString_ne_outOfFuel s
      have hunescape := unescape_ends s
      cases hlen : scanString s with
      | error f =>
        rw [hlen] at hscan
        exact fun h => hscan (congrArg Except.error h)
      | ok len =>
        cases hout : unescape s with
        | error f =>
          rw [hout] at hunescape
          exact hunescape
        | ok out =>
          rw [hout] at hunescape
          show Ends _ _ (if len < out.1.length then _ else _)
          split
          · exact nofun
          · exact ⟨trivial, hunescape.2.trans (Nat.le_succ _)⟩

theorem length_dropWhile_le {α : Type} (p : α → Bool) (l : List α) :
    (l.dropWhile p).length ≤ l.length :=
  (List.dropWhile_suffix p).length_le

/-- The digits behind the leading zero that `integerPart` passes over. -/
theorem length_significantPart_le (num : Bytes) :
    (match num with
      | c :: _ =>
        if 49 ≤ c ∧ c ≤ 57 then (num.takeWhile isDigit, num.dropWhile isDigit) else ([], num)
      | [] => ([], num)).2.length ≤ num.length := by
  split
  · split
    · exact length_dropWhile_le isDigit _
    · exact le_rfl
  · exact le_rfl

theorem length_integerPart_le (num : Bytes) : (integerPart num).2.length ≤ num.length := by
  unfold integerPart
  refine (length_significantPart_le _).trans ?_
  split
  · exact Nat.le_succ _
  · exact le_rfl

theorem length_fractionPart_le (num : Bytes) : (fractionPart num).2.length ≤ num.length := by
  unfold fractionPart
  split
  · split
    · exact (length_dropWhile_le isDigit _).trans (Nat.le_succ _)
    · exact le_rfl
  · exact le_rfl

theorem exponentPart_ends (num : Bytes) :
    (∃ r, exponentPart num = .ok r ∧ r.2.length ≤ num.length) ∨
      exponentPart num = .error .intOverflow := by
  cases num with
  | nil => exact .inl ⟨(0, []), rfl, le_rfl⟩
  | cons c t =>
    by_cases hc : c = 101 ∨ c = 69
    · -- the digits start behind the sign, if there is one
      have hdigits : ∀ (sign : ℤ) (t' : Bytes), t'.length ≤ t.length →
          (∃ r, (if 2 ^ 31 ≤ ofNumeral 10 (t'.takeWhile isDigit) then .error .intOverflow
            else .ok (sign * ofNumeral 10 (t'.takeWhile isDigit), t'.dropWhile isDigit) :
              Except Fault (ℤ × Bytes)) = .ok r ∧ r.2.length ≤ (c :: t).length) ∨
          (if 2 ^ 31 ≤ ofNumeral 10 (t'.takeWhile isDigit) then .error .intOverflow
            else .ok (sign * ofNumeral 10 (t'.takeWhile isDigit), t'.dropWhile isDigit) :
              Except Fault (ℤ × Bytes)) = .error .intOverflow := by
        intro sign t' ht'
        split_ifs with h
        · exact .inr rfl
        · exact .inl ⟨_, rfl, (length_dropWhile_le isDigit t').trans (ht'.trans (Nat.le_succ _))⟩
      rw [exponentPart.eq_def]
      simp only [if_pos hc]
      split
      · exact hdigits 1 _ (Nat.le_succ _)
      · exact hdigits (-1) _ (Nat.le_succ _)
      · exact hdigits 1 t le_rfl
    · refine .inl ⟨(0, c :: t), ?_, le_rfl⟩
      rw [exponentPart.eq_def]
      exact if_neg hc

theorem length_unsigned_le (num : Bytes) :
    (match num with
      | 45 :: t => ((.finite (-1), t) : Double × Bytes)
      | num => (.finite 1, num)).2.length ≤ num.length := by
  split
  · exact Nat.le_succ _
  · exact le_rfl

/-- A number behind its sign. -/
theorem parseUnsigned_ends (M : Machine) (sign : Double) (num : Bytes) :
    Ends (CJson.Narrow M) num.length ((do
      let (subscale, rest) ← exponentPart (fractionPart (integerPart num).2).2
      let n := accumulate (accumulate (.finite 0) (integerPart num).1)
        (fractionPart (integerPart num).2).1
      let n := (sign.mul n).mul
        (M.pow10 (-(fractionPart (integerPart num).2).1.length + subscale))
      Except.ok (CJson.number (M.toInt32 n) n, rest) : Except Fault (CJson × Bytes)).map some) := by
  rcases exponentPart_ends (fractionPart (integerPart num).2).2 with ⟨r, hr, hlen⟩ | herror
  · rw [hr]
    exact ⟨.number _, hlen.trans ((length_fractionPart_le _).trans (length_integerPart_le _))⟩
  · rw [herror]
    exact nofun

/-- `parse_number` returns a number with its narrowing and stops within its input. -/
theorem parseNumber_ends (M : Machine) (num : Bytes) :
    Ends (CJson.Narrow M) num.length ((parseNumber M num).map some) :=
  (parseUnsigned_ends M _ _).mono (length_unsigned_le num)

/-! ## Decimal numerals -/

/-- The accumulation is exact as long as the number has a double of its own. -/
theorem accumulate_digits {ds : Bytes} (hds : ∀ c ∈ ds, isDigit c = true)
    (hlt : ofNumeral 10 ds < 2 ^ 53) : accumulate (.finite 0) ds = .ofNat (ofNumeral 10 ds) := by
  induction ds using List.reverseRecOn with
  | nil => simp [accumulate, ofNumeral, Double.ofNat]
  | append_singleton ds c ih =>
    have hvalue := digitValue_of_isDigit
      (hds c (List.mem_append_right ds (List.mem_singleton_self c)))
    rw [ofNumeral_snoc, hvalue] at hlt ⊢
    have hprev := ih (fun d hd => hds d (List.mem_append_left [c] hd)) (by omega)
    unfold accumulate at hprev ⊢
    rw [List.foldl_append, hprev, List.foldl_cons, List.foldl_nil, Double.mul_ofNat (by omega),
      Double.add_ofNat hlt]

theorem integerPart_of_significant {c : UInt8} (hc : 49 ≤ c ∧ c ≤ 57) (t : Bytes) :
    integerPart (c :: t) = ((c :: t).takeWhile isDigit, (c :: t).dropWhile isDigit) := by
  unfold integerPart
  split
  · next h => exact absurd ((List.cons.inj h).1 ▸ hc) (by decide)
  · simp only [if_pos hc]

theorem integerPart_zero {rest : Bytes} (hrest : ∀ c ∈ rest.head?, isDigit c = false) :
    integerPart (48 :: rest) = ([], rest) := by
  unfold integerPart
  simp only
  split
  · next c t =>
    have hc : ¬ (49 ≤ c ∧ c ≤ 57) := fun ⟨h49, h57⟩ => by
      have hdigit : isDigit c = true := by
        rw [isDigit, Bool.and_eq_true, decide_eq_true_eq, decide_eq_true_eq]
        exact ⟨UInt8.le_trans (by decide) h49, h57⟩
      exact absurd hdigit (ne_true_of_eq_false (hrest c rfl))
    rw [if_neg hc]
  · rfl

/-- The digits of a numeral are read up to what stops a number; zero has none to count. -/
theorem integerPart_toDecimal (n : Nat) {rest : Bytes}
    (hrest : ∀ c ∈ rest.head?, isDigit c = false) :
    integerPart (toDecimal n ++ rest) = (if n = 0 then [] else toDecimal n, rest) := by
  by_cases hn : n = 0
  · rw [hn, if_pos rfl]
    exact integerPart_zero hrest
  · obtain ⟨c, t, hct⟩ : ∃ c t, toDecimal n = c :: t :=
      List.exists_cons_of_ne_nil (numeral_ne_nil 10 n)
    have hdigit : isDigit c = true := toDecimal_isDigit n c (hct ▸ List.mem_cons_self)
    -- no numeral but 0 starts with a zero
    have hne : c ≠ 48 := by
      rintro rfl
      have hzero : toDecimal n = [48] := Json.head_toDecimal n (by rw [hct]; rfl)
      have hvalue : ofNumeral 10 (toDecimal n) = n := ofNumeral_numeral (by decide) (by decide) n
      rw [hzero] at hvalue
      exact hn hvalue.symm
    have hc : 49 ≤ c ∧ c ≤ 57 := by
      simp only [isDigit, Bool.and_eq_true, decide_eq_true_eq, UInt8.le_iff_toNat_le] at hdigit ⊢
      have h48 : c.toNat ≠ 48 := fun h => hne (UInt8.toNat_inj.mp h)
      have h48' : (48 : UInt8).toNat = 48 := rfl
      have h49 : (49 : UInt8).toNat = 49 := rfl
      exact ⟨by omega, hdigit.2⟩
    rw [if_neg hn, hct, List.cons_append, integerPart_of_significant hc, ← List.cons_append, ← hct,
      takeWhile_toDecimal n hrest, dropWhile_toDecimal n hrest]

theorem fractionPart_of_stops {rest : Bytes} (hrest : Json.Stops rest) :
    fractionPart rest = ([], rest) := by
  unfold fractionPart
  split
  · exact absurd rfl (hrest 46 rfl).2.1
  · rfl

theorem exponentPart_of_stops {rest : Bytes} (hrest : Json.Stops rest) :
    exponentPart rest = .ok (0, rest) := by
  cases rest with
  | nil => rfl
  | cons c t =>
    obtain ⟨-, -, he, hE⟩ := hrest c rfl
    rw [exponentPart.eq_def]
    exact if_neg (not_or.mpr ⟨he, hE⟩)

/-- A numeral has no sign. -/
theorem parseNumber_unsigned (M : Machine) {c : UInt8} (hc : c ≠ 45) (t : Bytes) :
    parseNumber M (c :: t) = (do
      let (subscale, rest) ← exponentPart (fractionPart (integerPart (c :: t)).2).2
      let n := accumulate (accumulate (.finite 0) (integerPart (c :: t)).1)
        (fractionPart (integerPart (c :: t)).2).1
      let n := ((Double.finite 1).mul n).mul
        (M.pow10 (-(fractionPart (integerPart (c :: t)).2).1.length + subscale))
      .ok (.number (M.toInt32 n) n, rest)) := by
  unfold parseNumber
  split
  next sign num h =>
    split at h
    · next heq => exact absurd (List.cons.inj heq).1 hc
    · cases h
      rfl

/-- **A decimal numeral below 2^53 is read as exactly its number.** -/
theorem parseNumber_toDecimal {M : Machine} (hpow : M.pow10 0 = .ofNat 1) {n : Nat}
    (hn : n < 2 ^ 53) {rest : Bytes} (hrest : Json.Stops rest) :
    parseNumber M (toDecimal n ++ rest) =
      .ok (.number (M.toInt32 (.ofNat n)) (.ofNat n), rest) := by
  have hstop : ∀ c ∈ rest.head?, isDigit c = false := fun c hc => (hrest c hc).1
  have hint := integerPart_toDecimal n hstop
  obtain ⟨c, t, hct⟩ : ∃ c t, toDecimal n = c :: t :=
    List.exists_cons_of_ne_nil (numeral_ne_nil 10 n)
  have hsign : c ≠ 45 := by
    rintro rfl
    exact absurd (toDecimal_isDigit n 45 (hct ▸ List.mem_cons_self)) (by decide)
  have hdigits : accumulate (.finite 0) (if n = 0 then [] else toDecimal n) = .ofNat n := by
    split
    · next h => simp [h, accumulate, Double.ofNat]
    · have hvalue : ofNumeral 10 (toDecimal n) = n := ofNumeral_numeral (by decide) (by decide) n
      rw [accumulate_digits (toDecimal_isDigit n) (by rwa [hvalue]), hvalue]
  rw [hct, List.cons_append, parseNumber_unsigned M hsign, ← List.cons_append, ← hct, hint]
  simp only [fractionPart_of_stops hrest, exponentPart_of_stops hrest, hdigits]
  -- sign and scale are 1
  have hone : ((Double.finite 1).mul (.ofNat n)).mul (M.pow10 (-(0 : ℤ) + 0)) = .ofNat n := by
    have h1 : (Double.finite 1).mul (.ofNat n) = .ofNat n := by
      have hmul := Double.mul_ofNat (m := 1) (n := n) (by omega)
      rwa [one_mul] at hmul
    rw [h1, neg_zero, zero_add, hpow, Double.mul_ofNat (by omega), mul_one]
  show Except.ok (CJson.number
    (M.toInt32 (((Double.finite 1).mul (.ofNat n)).mul (M.pow10 (-(0 : ℤ) + 0)))) _, rest) = _
  rw [hone]
  exact congrArg (fun d => Except.ok (CJson.number (M.toInt32 (.ofNat n)) d, rest)) hone

/-! ## Values -/

theorem length_skip_le (s : Bytes) : (skip s).length ≤ s.length := length_dropWhile_le _ s

/-- The three functions of the grammar with enough fuel. -/
structure GrammarEnds (M : Machine) (fuel : Nat) : Prop where
  value : ∀ s : Bytes, 2 * s.length + 1 ≤ fuel →
    Ends (CJson.Narrow M) s.length (parseValue M fuel s)
  elements : ∀ s : Bytes, 2 * s.length + 2 ≤ fuel →
    Ends (fun cs => ∀ c ∈ cs, CJson.Narrow M c) s.length (parseElements M fuel s)
  members : ∀ s : Bytes, 2 * s.length + 2 ≤ fuel →
    Ends (fun ms => ∀ m ∈ ms, CJson.Narrow M m.2) s.length (parseMembers M fuel s)

theorem parseValue_ends {M : Machine} {fuel : Nat} (ih : GrammarEnds M fuel) (s : Bytes)
    (hfuel : 2 * s.length + 1 ≤ fuel + 1) :
    Ends (CJson.Narrow M) s.length (parseValue M (fuel + 1) s) := by
  have hdrop : ∀ n, (s.drop n).length ≤ s.length := fun n => by
    rw [List.length_drop]
    exact Nat.sub_le _ _
  rw [parseValue.eq_def]
  simp only
  split_ifs
  · exact ⟨.null, hdrop 4⟩
  · exact ⟨.false, hdrop 5⟩
  · exact ⟨.true, hdrop 4⟩
  · cases s with
    | nil => exact trivial
    | cons c s =>
      have hs : 2 * s.length + 2 ≤ fuel := by
        rw [List.length_cons] at hfuel
        omega
      simp only
      split_ifs
      · exact (parseString_ends (c :: s)).map fun str _ => .string str
      · exact parseNumber_ends M (c :: s)
      · have hskip := length_skip_le s
        cases hd : skip s with
        | nil => exact trivial
        | cons d t =>
          rw [hd, List.length_cons] at hskip
          simp only
          split_ifs
          · exact ⟨.array [] fun c hc => absurd hc List.not_mem_nil, by
              rw [List.length_cons]
              omega⟩
          · refine ((ih.elements (d :: t) (by rw [List.length_cons]; omega)).map
              fun cs hcs => .array cs hcs).mono ?_
            rw [List.length_cons, List.length_cons]
            omega
      · have hskip := length_skip_le s
        cases hd : skip s with
        | nil => exact trivial
        | cons d t =>
          rw [hd, List.length_cons] at hskip
          simp only
          split_ifs
          · exact ⟨.object [] fun m hm => absurd hm List.not_mem_nil, by
              rw [List.length_cons]
              omega⟩
          · refine ((ih.members (d :: t) (by rw [List.length_cons]; omega)).map
              fun ms hms => .object ms hms).mono ?_
            rw [List.length_cons, List.length_cons]
            omega
      · exact trivial

theorem parseElements_ends {M : Machine} {fuel : Nat} (ih : GrammarEnds M fuel) (s : Bytes)
    (hfuel : 2 * s.length + 2 ≤ fuel + 1) :
    Ends (fun cs => ∀ c ∈ cs, CJson.Narrow M c) s.length (parseElements M (fuel + 1) s) := by
  have hskip := length_skip_le s
  rw [parseElements]
  refine (ih.value (skip s) (by omega)).bind rfl fun child rest hchild hrest => ?_
  dsimp only
  have hrest' := length_skip_le rest
  cases hd : skip rest with
  | nil => exact trivial
  | cons c t =>
    rw [hd, List.length_cons] at hrest'
    simp only
    -- a comma and more, the bracket, or neither
    split_ifs
    · exact ((ih.elements t (by omega)).map fun cs hcs =>
        List.forall_mem_cons.mpr ⟨hchild, hcs⟩).mono (by omega)
    · exact ⟨List.forall_mem_singleton.mpr hchild, by omega⟩
    · exact trivial

theorem parseMembers_ends {M : Machine} {fuel : Nat} (ih : GrammarEnds M fuel) (s : Bytes)
    (hfuel : 2 * s.length + 2 ≤ fuel + 1) :
    Ends (fun ms => ∀ m ∈ ms, CJson.Narrow M m.2) s.length (parseMembers M (fuel + 1) s) := by
  have hskip := length_skip_le s
  rw [parseMembers]
  refine (parseString_ends (skip s)).bind rfl fun name rest _ hrest => ?_
  dsimp only
  have hrest' := length_skip_le rest
  cases hd : skip rest with
  | nil => exact trivial
  | cons c t =>
    rw [hd, List.length_cons] at hrest'
    simp only
    split_ifs
    · exact trivial
    · have hskip' := length_skip_le t
      refine (ih.value (skip t) (by omega)).bind rfl fun child rest' hchild hlen => ?_
      dsimp only
      have hlen' := length_skip_le rest'
      cases hd' : skip rest' with
      | nil => exact trivial
      | cons c' t' =>
        rw [hd', List.length_cons] at hlen'
        simp only
        split_ifs
        · have hcons : ∀ ms : List (CStr × CJson), (∀ m ∈ ms, CJson.Narrow M m.2) →
              ∀ m ∈ (name, child) :: ms, CJson.Narrow M m.2 :=
            fun ms hms => List.forall_mem_cons.mpr ⟨hchild, hms⟩
          exact ((ih.members t' (by omega)).map hcons).mono (by omega)
        · exact ⟨List.forall_mem_singleton.mpr hchild, by omega⟩
        · exact trivial

/-- Twice the length of the text is fuel enough, by induction on the fuel. -/
theorem grammar_ends (M : Machine) (fuel : Nat) : GrammarEnds M fuel := by
  induction fuel with
  | zero => exact ⟨fun s h => by omega, fun s h => by omega, fun s h => by omega⟩
  | succ fuel ih =>
    exact ⟨parseValue_ends ih, parseElements_ends ih, parseMembers_ends ih⟩

/-- **What `tretap_CJson_Parse` returns**: a tree whose numbers carry their own
narrowing, NULL, or a fault of the C code. -/
theorem parse_ends (M : Machine) (value : CStr) :
    match tretapCJsonParse M value with
    | .error f => f ≠ .outOfFuel
    | .ok root => ∀ x ∈ root, CJson.Narrow M x := by
  have hskip := length_skip_le value.toBytes
  have h := (grammar_ends M (2 * value.toBytes.length + 2)).value (skip value.toBytes) (by omega)
  unfold tretapCJsonParse
  match parseValue M (2 * value.toBytes.length + 2) (skip value.toBytes), h with
  | .error _, h => exact h
  | .ok none, _ => exact fun x hx => by cases hx
  | .ok (some r), h =>
    intro x hx
    cases hx
    exact h.1

/-- The fuel of the model never runs out. -/
theorem parse_ne_outOfFuel (M : Machine) (value : CStr) :
    tretapCJsonParse M value ≠ .error .outOfFuel := by
  intro h
  have hends := parse_ends M value
  rw [h] at hends
  exact hends rfl

/-- Every number of a parsed tree carries its own narrowing. -/
theorem narrow_of_parse {M : Machine} {value : CStr} {root : CJson}
    (h : tretapCJsonParse M value = .ok (some root)) : root.Narrow M := by
  have hends := parse_ends M value
  rw [h] at hends
  exact hends root rfl

end DdnsCloudTencent
