import DdnsCloudTencent.Lib.JsonGrammar

/-!
# Writing JSON without escapes

When the text that `write` produces is the JSON text of the object that was meant
(`denotes_write_iff`): exactly if every text in it is plain and UTF-8.

The one difficult point is the quotation mark that closes a text
(`StringText.of_quote`). The string ends there; or it has an escape and is
shorter than the text; or the text ends in a backslash and the string goes on, up
to the next quotation mark at the earliest (`MemberTail.not_behind`).
-/

namespace Json

open Cxx

/-! ## Where a string ends -/

theorem length_utf8EncodeChar_le (ch : Char) : (String.utf8EncodeChar ch).length ≤ 4 := by
  rw [String.length_utf8EncodeChar]
  exact ch.utf8Size_le_four

/-- The four digits of an escape hold no quotation mark. -/
theorem ne_quote_of_hex4 {h₁ h₂ h₃ h₄ : UInt8} {u : Nat} (h : hex4 h₁ h₂ h₃ h₄ = some u) :
    h₁ ≠ 34 ∧ h₂ ≠ 34 ∧ h₃ ≠ 34 ∧ h₄ ≠ 34 := by
  have hdigits : isHexDigit h₁ = true ∧ isHexDigit h₂ = true ∧ isHexDigit h₃ = true ∧
      isHexDigit h₄ = true := by
    by_contra hno
    simp [hex4, and_assoc, hno] at h
  have hquote : ∀ c : UInt8, isHexDigit c = true → c ≠ 34 := by
    rintro c hc rfl
    exact absurd hc (by decide)
  exact ⟨hquote _ hdigits.1, hquote _ hdigits.2.1, hquote _ hdigits.2.2.1, hquote _ hdigits.2.2.2⟩

/-- A piece without a quotation mark lies before the first one. -/
theorem exists_of_append_quote {x t u t' : Bytes} (hu : 34 ∉ u) (h : x ++ 34 :: t = u ++ t') :
    ∃ x', x = u ++ x' ∧ x' ++ 34 :: t = t' := by
  rcases List.append_eq_append_iff.mp h with ⟨y, rfl, ht⟩ | ⟨y, rfl, ht⟩
  · cases y with
    | nil => exact ⟨[], by simp, ht⟩
    | cons c y =>
      obtain ⟨rfl, -⟩ := List.cons.inj ht
      exact absurd (by simp) hu
  · exact ⟨y, rfl, ht.symm⟩

/-- How a string ends that is read from `x`, a quotation mark, and `t`. -/
inductive StringText.Ends (x t s r : Bytes) : Prop where
  | before : s.length < x.length → Ends x t s r
  | there : PlainText x → s = x → r = t → Ends x t s r
  | behind (s₀ s' : Bytes) : x.getLast? = some 92 → s = s₀ ++ 34 :: s' → StringText t s' r →
      Ends x t s r

/-- An escape in front. -/
theorem StringText.Ends.escaped {x t s r u d : Bytes} (h : Ends x t s r)
    (hshort : d.length < u.length) : Ends (u ++ x) t (d ++ s) r := by
  cases h with
  | before hlt => exact .before (by simp only [List.length_append]; omega)
  | there _ hs _ =>
    rw [hs]
    exact .before (by simp only [List.length_append]; omega)
  | behind s₀ s' hlast hs hrest =>
    refine .behind (d ++ s₀) s' ?_ (by rw [hs, List.append_assoc]) hrest
    rw [List.getLast?_append, hlast]
    rfl

/-- **A text, closed with a quotation mark, read as a string.** An escape makes
the string shorter than the text; a plain text is the string; and if the text
ends in a backslash the string goes on behind the quotation mark. -/
theorem StringText.of_quote {x t s r : Bytes} (h : StringText (x ++ 34 :: t) s r) :
    Ends x t s r := by
  generalize hy : x ++ 34 :: t = y at h
  induction h generalizing x with
  | quote =>
    cases x with
    | nil =>
      cases hy
      exact .there (by simp [PlainText]) rfl rfl
    | cons c x => exact .before (by simp)
  | @plain c t' s r hctrl hquote hback h ih =>
    have hc : (34 : UInt8) ∉ [c] := by simpa using hquote.symm
    obtain ⟨x', rfl, hx'⟩ := exists_of_append_quote hc hy
    cases ih hx' with
    | before hlt => exact .before (by simpa using hlt)
    | there hplain hs hr =>
      exact .there (List.forall_mem_cons.mpr ⟨⟨hctrl, hquote, hback⟩, hplain⟩) (by rw [hs]; rfl) hr
    | behind s₀ s' hlast hs hrest =>
      refine .behind (c :: s₀) s' ?_ (by rw [hs]; rfl) hrest
      rw [List.getLast?_append, hlast]
      rfl
  | @escape e b t' s r hesc h ih =>
    by_cases he : e = 34
    · -- an escaped quotation mark: the one behind the text, or one inside
      subst he
      obtain rfl : 34 = b := Option.some.inj hesc
      obtain ⟨x', rfl, hx'⟩ := exists_of_append_quote (u := [92]) (by decide) hy
      cases x' with
      | nil =>
        obtain ⟨-, rfl⟩ := List.cons.inj hx'
        exact .behind [] s rfl rfl h
      | cons c x'' =>
        obtain ⟨rfl, hx''⟩ := List.cons.inj hx'
        exact (ih hx'').escaped (u := [92, 34]) (d := [34]) (by decide)
    · have hu : (34 : UInt8) ∉ [92, e] := by simpa using Ne.symm he
      obtain ⟨x', rfl, hx'⟩ := exists_of_append_quote hu hy
      exact (ih hx').escaped (d := [b]) (by simp)
  | @unicode h₁ h₂ h₃ h₄ u t' s r hhex _ h ih =>
    obtain ⟨hne₁, hne₂, hne₃, hne₄⟩ := ne_quote_of_hex4 hhex
    have hu : (34 : UInt8) ∉ [92, 117, h₁, h₂, h₃, h₄] := by
      simp [hne₁.symm, hne₂.symm, hne₃.symm, hne₄.symm]
    obtain ⟨x', rfl, hx'⟩ := exists_of_append_quote hu hy
    exact (ih hx').escaped (Nat.lt_of_le_of_lt (length_utf8EncodeChar_le _) (by simp))
  | @surrogates h₁ h₂ h₃ h₄ l₁ l₂ l₃ l₄ hi lo t' s r hhi hlo _ _ h ih =>
    obtain ⟨hne₁, hne₂, hne₃, hne₄⟩ := ne_quote_of_hex4 hhi
    obtain ⟨hne₅, hne₆, hne₇, hne₈⟩ := ne_quote_of_hex4 hlo
    have hu : (34 : UInt8) ∉ [92, 117, h₁, h₂, h₃, h₄, 92, 117, l₁, l₂, l₃, l₄] := by
      simp [hne₁.symm, hne₂.symm, hne₃.symm, hne₄.symm, hne₅.symm, hne₆.symm, hne₇.symm,
        hne₈.symm]
    obtain ⟨x', rfl, hx'⟩ := exists_of_append_quote hu hy
    exact (ih hx').escaped (Nat.lt_of_le_of_lt (length_utf8EncodeChar_le _) (by simp))

/-! ## Which objects `write` writes -/

theorem Ws.eq_of_head {c : UInt8} {t r : Bytes} (hc : isWs c = false) (h : Ws (c :: t) r) :
    r = c :: t := by
  cases h with
  | nil => rfl
  | cons hc' _ =>
    rw [hc] at hc'
    cases hc'

/-- White space in front of the next token. -/
theorem Ws.eq_of_skipWs {t r : Bytes} {c : UInt8} (hc : isWs c = false) (h : Ws t (c :: r)) :
    skipWs t = c :: r := by
  generalize hr : c :: r = r' at h
  induction h with
  | nil =>
    rw [← hr]
    exact skipWs_of_head hc r
  | cons hws _ ih =>
    unfold skipWs
    rw [List.dropWhile_cons_of_pos hws]
    exact ih hr

/-- A plain text is read as it is. -/
theorem StringText.eq_of_plain {x t s r : Bytes} (hx : PlainText x)
    (h : StringText (x ++ 34 :: t) s r) : s = x ∧ r = t := by
  induction x generalizing s with
  | nil =>
    cases h with
    | quote => exact ⟨rfl, rfl⟩
    | plain _ hquote _ _ => exact absurd rfl hquote
  | cons c x ih =>
    obtain ⟨⟨_, hquote, hback⟩, hx⟩ := List.forall_mem_cons.mp hx
    rw [List.cons_append] at h
    generalize hy : x ++ 34 :: t = y at h
    cases h with
    | quote => exact absurd rfl hquote
    | plain _ _ _ h =>
      obtain ⟨rfl, rfl⟩ := ih hx (hy ▸ h)
      exact ⟨rfl, rfl⟩
    | _ => exact absurd rfl hback

/-- The characters of a number. -/
def isNumberChar (c : UInt8) : Bool :=
  isDigit c || c == 43 || c == 45 || c == 46 || c == 69 || c == 101

/-- Number characters only up to the rest. -/
def NumberPart (t r : Bytes) : Prop := ∃ u, t = u ++ r ∧ ∀ c ∈ u, isNumberChar c = true

theorem NumberPart.refl (t : Bytes) : NumberPart t t := ⟨[], rfl, by simp⟩

theorem NumberPart.cons {c : UInt8} {t r : Bytes} (hc : isNumberChar c = true)
    (h : NumberPart t r) : NumberPart (c :: t) r := by
  obtain ⟨u, rfl, hu⟩ := h
  exact ⟨c :: u, rfl, List.forall_mem_cons.mpr ⟨hc, hu⟩⟩

theorem NumberPart.trans {t t' r : Bytes} (h : NumberPart t t') (h' : NumberPart t' r) :
    NumberPart t r := by
  obtain ⟨u, rfl, hu⟩ := h
  obtain ⟨u', rfl, hu'⟩ := h'
  exact ⟨u ++ u', (List.append_assoc _ _ _).symm, List.forall_mem_append.mpr ⟨hu, hu'⟩⟩

theorem isNumberChar_of_isDigit {c : UInt8} (h : isDigit c = true) : isNumberChar c = true := by
  simp [isNumberChar, h]

theorem Digits.numberPart {t ds r : Bytes} (h : Digits t ds r) : NumberPart t r := by
  induction h with
  | one hd => exact (NumberPart.refl _).cons (isNumberChar_of_isDigit hd)
  | cons hd _ ih => exact ih.cons (isNumberChar_of_isDigit hd)

theorem Minus.numberPart {t r : Bytes} {q : ℚ} (h : Minus t q r) : NumberPart t r := by
  cases h with
  | absent => exact .refl _
  | minus => exact (NumberPart.refl _).cons rfl

theorem Fraction.numberPart {t ds r : Bytes} (h : Fraction t ds r) : NumberPart t r := by
  cases h with
  | absent => exact .refl _
  | digits hds => exact hds.numberPart.cons rfl

theorem ExponentSign.numberPart {t r : Bytes} {e : ℤ} (h : ExponentSign t e r) :
    NumberPart t r := by
  cases h with
  | absent => exact .refl _
  | plus | minus => exact (NumberPart.refl _).cons rfl

theorem Exponent.numberPart {t r : Bytes} {e : ℤ} (h : Exponent t e r) : NumberPart t r := by
  cases h with
  | absent => exact .refl _
  | digits he hsign hds =>
    have hmark : ∀ c : UInt8, c = 101 ∨ c = 69 → isNumberChar c = true := by
      rintro c (rfl | rfl) <;> rfl
    exact (hsign.numberPart.trans hds.numberPart).cons (hmark _ he)

theorem NumberText.numberPart {t r : Bytes} {q : ℚ} (h : NumberText t q r) : NumberPart t r := by
  cases h with
  | mk hsign hint _ hfrac hexp =>
    exact ((hsign.numberPart.trans hint.numberPart).trans hfrac.numberPart).trans hexp.numberPart

/-- The part that number characters make up is determined by what follows. -/
theorem NumberPart.eq_of_stop {u t r : Bytes} (h : NumberPart (u ++ t) r)
    (hu : ∀ c ∈ u, isNumberChar c = true) (ht : ∀ c ∈ t.head?, isNumberChar c = false)
    (hr : ∀ c ∈ r.head?, isNumberChar c = false) : r = t := by
  obtain ⟨u', heq, hu'⟩ := h
  have hdrop : ∀ {v s : Bytes}, (∀ c ∈ v, isNumberChar c = true) →
      (∀ c ∈ s.head?, isNumberChar c = false) → (v ++ s).dropWhile isNumberChar = s := by
    intro v s hv hs
    rw [List.dropWhile_append_of_pos hv]
    cases s with
    | nil => rfl
    | cons c s => rw [List.dropWhile_cons_of_neg (by simp [hs c rfl])]
  rw [← hdrop hu' hr, ← heq, hdrop hu ht]

/-- A number stops where white space, a comma or a brace follows. -/
theorem Ws.head_isNumberChar {t r : Bytes} {c : UInt8} (h : Ws t (c :: r))
    (hc : c = 44 ∨ c = 125) : ∀ d ∈ t.head?, isNumberChar d = false := by
  intro d hd
  cases h with
  | nil =>
    cases hd
    rcases hc with rfl | rfl <;> rfl
  | cons hws _ =>
    cases hd
    simp only [isWs, Bool.or_eq_true, beq_iff_eq] at hws
    rcases hws with ((rfl | rfl) | rfl) | rfl <;> rfl

theorem Digits.eq_append {t ds r : Bytes} (h : Digits t ds r) : t = ds ++ r := by
  induction h with
  | one _ => rfl
  | cons _ _ ih => rw [ih]; rfl

/-- A decimal is read as a whole, and as the number it is. -/
theorem NumberText.eq_of_decimal {n : Nat} {tail r : Bytes} {q : ℚ}
    (h : NumberText (toDecimal n ++ tail) q r) (htail : ∀ c ∈ tail.head?, isNumberChar c = false)
    (hr : ∀ c ∈ r.head?, isNumberChar c = false) : q = n ∧ r = tail := by
  have hdigits : ∀ c ∈ toDecimal n, isDigit c = true := toDecimal_isDigit n
  obtain rfl :=
    h.numberPart.eq_of_stop (fun c hc => isNumberChar_of_isDigit (hdigits c hc)) htail hr
  refine ⟨?_, rfl⟩
  generalize hy : toDecimal n ++ r = y at h
  cases h with
  | @mk t₁ t₂ t₃ _ int frac sign e hsign hint hzero hfrac hexp =>
    obtain ⟨rfl, rfl⟩ : sign = 1 ∧ t₁ = y := by
      cases hsign with
      | absent => exact ⟨rfl, rfl⟩
      | minus =>
        obtain ⟨c, s, hc⟩ := List.exists_cons_of_ne_nil (numeral_ne_nil 10 n)
        rw [toDecimal, hc] at hy
        obtain ⟨rfl, -⟩ := List.cons.inj hy
        exact absurd (hdigits 45 (by rw [toDecimal, hc]; simp)) (by decide)
    -- what follows the integer part starts with a digit or ends the number
    obtain ⟨u, ht₂, hu⟩ := hfrac.numberPart.trans hexp.numberPart
    rw [hint.eq_append, ht₂, ← List.append_assoc] at hy
    have hint' : toDecimal n = int ++ u := List.append_cancel_right hy
    have hhead : ∀ c ∈ t₂.head?, c ≠ 46 ∧ c ≠ 101 ∧ c ≠ 69 := by
      intro c hc
      have hmark : isDigit c = true ∨ isNumberChar c = false := by
        cases u with
        | nil => exact .inr (hr c (by rwa [ht₂, List.nil_append] at hc))
        | cons d u =>
          rw [ht₂] at hc
          cases hc
          exact .inl (hdigits c (by rw [hint']; simp))
      refine ⟨?_, ?_, ?_⟩ <;> (rintro rfl; exact absurd hmark (by decide))
    cases hfrac with
    | digits => exact absurd rfl (hhead 46 rfl).1
    | absent =>
      cases hexp with
      | digits he => exact absurd he (not_or.mpr ⟨(hhead _ rfl).2.1, (hhead _ rfl).2.2⟩)
      | absent =>
        rw [List.self_eq_append_left] at ht₂
        rw [ht₂, List.append_nil] at hint'
        rw [← hint', List.append_nil, toDecimal, ofNumeral_numeral (by decide) (by decide)]
        simp

/-- What stands behind a member: the closing brace, or a comma and the next name. -/
def MemberTail (t : Bytes) : Prop := t = [125] ∨ ∃ z, t = 44 :: 32 :: 34 :: z

/-- A string does not reach into the text behind a member. -/
theorem MemberTail.not_behind {x tail r : Bytes} (htail : MemberTail tail) {s₀ s' : Bytes}
    (hlast : x.getLast? = some 92) (hx : x = s₀ ++ 34 :: s') : ¬ StringText tail s' r := by
  intro h
  rcases htail with rfl | ⟨z, rfl⟩
  · cases h with
    | plain _ _ _ h => cases h
  · -- the string would be `, `, and the text ends in a backslash
    have hplain : PlainText (bytes ", ") := by decide
    obtain ⟨rfl, -⟩ := StringText.eq_of_plain (x := bytes ", ") (t := z) hplain h
    have hend : (s₀ ++ 34 :: bytes ", ").getLast? = some 32 := by rw [List.getLast?_append]; rfl
    rw [hx, hend] at hlast
    exact absurd (Option.some.inj hlast) (by decide)

/-- What the first character says about a value. -/
def Value.Starts (c : UInt8) : Value → Prop
  | .null => c = 110
  | .bool true => c = 116
  | .bool false => c = 102
  | .number _ => isDigit c = true ∨ c = 45
  | .string _ => c = 34
  | .array _ => c = 91
  | .object _ => c = 123

theorem starts_of_valueText {t r : Bytes} {v : Value} (h : ValueText t v r) :
    ∃ c t', t = c :: t' ∧ v.Starts c := by
  cases h with
  | number h =>
    cases h with
    | mk hsign hint =>
      cases hsign with
      | minus => exact ⟨_, _, rfl, .inr rfl⟩
      | absent =>
        cases hint with
        | one hd | cons hd => exact ⟨_, _, rfl, .inl hd⟩
  | _ => exact ⟨_, _, rfl, rfl⟩

/-- No value starts with white space. -/
theorem Value.Starts.isWs_eq_false {c : UInt8} {v : Value} (h : v.Starts c) : isWs c = false := by
  cases hws : isWs c with
  | false => rfl
  | true =>
    simp only [isWs, Bool.or_eq_true, beq_iff_eq] at hws
    revert h
    rcases v with _ | (_ | _) | _ | _ | _ | _ <;> rcases hws with ((rfl | rfl) | rfl) | rfl <;>
      simp [Value.Starts, isDigit]

/-- The first character of the text of an atom. -/
theorem starts_writeAtom (a : Atom) (rest : Bytes) :
    ∃ c t', writeAtom a ++ rest = c :: t' ∧ a.toValue.Starts c := by
  cases a with
  | string s => exact ⟨34, _, rfl, rfl⟩
  | bool b => cases b <;> exact ⟨_, _, rfl, rfl⟩
  | null => exact ⟨_, _, rfl, rfl⟩
  | number n =>
    obtain ⟨c, t, hct⟩ := List.exists_cons_of_ne_nil (numeral_ne_nil 10 n)
    refine ⟨c, t ++ rest, by rw [writeAtom, toDecimal, hct]; rfl, .inl ?_⟩
    exact toDecimal_isDigit n c (by rw [toDecimal, hct]; simp)

/-- Two atoms of one kind; there is one `null`, one `true` and one `false`. -/
def Atom.SameKind : Atom → Atom → Prop
  | .string _, a' => ∃ x, a' = .string x
  | .number _, a' => ∃ k, a' = .number k
  | a, a' => a' = a

/-- The first character decides the kind. -/
theorem sameKind_of_starts {a a' : Atom} {c : UInt8} (h : a.toValue.Starts c)
    (h' : a'.toValue.Starts c) : a.SameKind a' := by
  rcases a with x | n | (_ | _) | _ <;> rcases a' with x' | n' | (_ | _) | _ <;>
    first
    | exact rfl
    | exact ⟨_, rfl⟩
    | (simp only [Atom.toValue, Value.Starts] at h h'
       subst h
       exact absurd h' (by decide))
    | (simp only [Atom.toValue, Value.Starts] at h h'
       subst h'
       exact absurd h (by decide))

/-- The text of `a` is read as a value that is `a` in case `a` is a string: then
it is `a`, and plain. -/
theorem valueText_writeAtom {a a' : Atom} {tail t₁ t₂ : Bytes} {c : UInt8}
    (hsame : ∀ x, a = .string x → a' = a) (htail : MemberTail tail)
    (h : ValueText (writeAtom a ++ tail) a'.toValue t₁) (hend : Ws t₁ (c :: t₂))
    (hc : c = 44 ∨ c = 125) : a' = a ∧ a.Plain ∧ t₁ = tail := by
  have hkind : a.SameKind a' := by
    obtain ⟨d, s, hs, hstarts⟩ := starts_of_valueText h
    obtain ⟨d', s', hs', hstarts'⟩ := starts_writeAtom a tail
    obtain ⟨rfl, -⟩ := List.cons.inj (hs'.symm.trans hs)
    exact sameKind_of_starts hstarts' hstarts
  cases a with
  | string x =>
    obtain rfl := hsame x rfl
    rw [writeAtom, writeText, List.cons_append, List.append_assoc] at h
    cases h with
    | string h =>
      cases h.of_quote with
      | before hlt => exact absurd hlt (Nat.lt_irrefl _)
      | there hplain _ hr => exact ⟨rfl, hplain, hr⟩
      | behind s₀ s' hlast hs hrest => exact absurd hrest (htail.not_behind hlast hs)
  | number n =>
    obtain ⟨k, rfl⟩ := hkind
    have htail' : ∀ d ∈ tail.head?, isNumberChar d = false := by
      rcases htail with rfl | ⟨z, rfl⟩ <;> (intro d hd; cases hd; rfl)
    generalize hy : writeAtom (.number n) ++ tail = y at h
    cases h with
    | number h =>
      rw [← hy] at h
      obtain ⟨hk, hr⟩ := NumberText.eq_of_decimal h htail' (hend.head_isNumberChar hc)
      exact ⟨by rw [Nat.cast_inj.mp hk], trivial, hr⟩
  | bool b =>
    obtain rfl : a' = .bool b := hkind
    refine ⟨rfl, trivial, ?_⟩
    generalize hy : writeAtom (.bool b) ++ tail = y at h
    cases b with
    | true =>
      cases h with
      | true => exact (List.append_cancel_left hy).symm
    | false =>
      cases h with
      | false => exact (List.append_cancel_left hy).symm
  | null =>
    obtain rfl : a' = .null := hkind
    refine ⟨rfl, trivial, ?_⟩
    generalize hy : writeAtom .null ++ tail = y at h
    cases h with
    | null => exact (List.append_cancel_left hy).symm

theorem writeMember_append (m : Bytes × Atom) (rest : Bytes) :
    writeMember m ++ rest = 34 :: (m.1 ++ 34 :: 58 :: 32 :: (writeAtom m.2 ++ rest)) := by
  simp [writeMember, writeText, show bytes ": " = [58, 32] from rfl]

theorem writeMembers_cons_cons (m m' : Bytes × Atom) (ms : Object) (rest : Bytes) :
    writeMembers (m :: m' :: ms) ++ rest =
      writeMember m ++ 44 :: 32 :: (writeMembers (m' :: ms) ++ rest) := by
  simp [writeMembers, show bytes ", " = [44, 32] from rfl]

theorem write_eq (o : Object) : write o = 123 :: (writeMembers o ++ [125]) := by
  simp [write, show bytes "\x7b" = [123] from rfl, show bytes "\x7d" = [125] from rfl]

theorem head_writeMembers (m : Bytes × Atom) (ms : Object) (rest : Bytes) :
    ∃ z, writeMembers (m :: ms) ++ rest = 34 :: z := by
  cases ms <;> exact ⟨_, rfl⟩

/-- Members that have the same names, and the same strings. -/
def SameStrings (o o' : Object) : Prop :=
  List.Forall₂ (fun m m' => m'.1 = m.1 ∧ ∀ x, m.2 = .string x → m'.2 = m.2) o o'

/-- A member whose string, if it is one, is read back from its text. -/
theorem memberText_writeMember {m m' : Bytes × Atom} {tail t t₁ t₂ : Bytes} {c : UInt8}
    (hname : PlainText m.1) (hsame : m'.1 = m.1 ∧ ∀ x, m.2 = .string x → m'.2 = m.2)
    (htail : MemberTail tail) (ht : skipWs t = writeMember m ++ tail)
    (h : MemberText t (m'.1, m'.2.toValue) t₁) (hend : Ws t₁ (c :: t₂)) (hc : c = 44 ∨ c = 125) :
    m' = m ∧ m.2.Plain ∧ t₁ = tail := by
  cases h with
  | mk hquote hstring hcolon hblank hvalue =>
    rw [writeMember_append, hquote.eq_of_skipWs rfl] at ht
    obtain ⟨-, rfl⟩ := List.cons.inj ht
    obtain ⟨-, rfl⟩ := hstring.eq_of_plain hname
    obtain ⟨-, rfl⟩ := List.cons.inj (hcolon.eq_of_head rfl)
    -- the one blank before the value
    obtain ⟨d, t₄, rfl, hd⟩ := starts_of_valueText hvalue
    have hskip := hblank.eq_of_skipWs hd.isWs_eq_false
    rw [skipWs_blank, skipWs_writeAtom] at hskip
    rw [← hskip] at hvalue
    obtain ⟨hval, hplain, hr⟩ := valueText_writeAtom hsame.2 htail hvalue hend hc
    exact ⟨Prod.ext hsame.1 hval, hplain, hr⟩

/-- An object whose strings are read back from its text. -/
theorem members_writeMembers {o o' : Object} (hne : o ≠ []) (hnames : ∀ m ∈ o, PlainText m.1)
    (hsame : SameStrings o o') {t r : Bytes} (ht : skipWs t = writeMembers o ++ [125])
    (h : Members t o'.toMembers r) : o' = o ∧ ∀ m ∈ o, m.2.Plain := by
  induction hsame generalizing t with
  | nil => exact absurd rfl hne
  | @cons m m' ms ms' hm hms ih =>
    obtain ⟨hname, htailNames⟩ := List.forall_mem_cons.mp hnames
    cases hms with
    | nil =>
      cases h with
      | last hmember hend =>
        obtain ⟨rfl, hplain, -⟩ :=
          memberText_writeMember hname hm (.inl rfl) ht hmember hend (.inr rfl)
        exact ⟨rfl, List.forall_mem_singleton.mpr hplain⟩
      | more _ _ hrest => cases hrest
    | @cons k k' ks ks' hk hks =>
      rw [writeMembers_cons_cons] at ht
      obtain ⟨z, hz⟩ := head_writeMembers k ks [125]
      have htail : MemberTail (44 :: 32 :: (writeMembers (k :: ks) ++ [125])) :=
        .inr ⟨z, by rw [hz]⟩
      cases h with
      | more hmember hcomma hrest =>
        obtain ⟨rfl, hplain, rfl⟩ :=
          memberText_writeMember hname hm htail ht hmember hcomma (.inl rfl)
        obtain ⟨-, rfl⟩ := List.cons.inj (hcomma.eq_of_head rfl)
        have hskip : skipWs (32 :: (writeMembers (k :: ks) ++ [125])) =
            writeMembers (k :: ks) ++ [125] := by
          rw [skipWs_blank, hz]
          exact skipWs_of_head rfl z
        obtain ⟨heq, hrest⟩ := ih (List.cons_ne_nil _ _) htailNames hskip hrest
        exact ⟨by rw [heq], List.forall_mem_cons.mpr ⟨hplain, hrest⟩⟩

/-- A text that stands for itself in a JSON text. -/
def Text (s : Bytes) : Prop := PlainText s ∧ Utf8 s

/-- A value whose text stands for itself. -/
def Atom.Text : Atom → Prop
  | .string s => Json.Text s
  | _ => True

theorem utf8_nil : Utf8 [] := ⟨[], rfl⟩

theorem utf8_cons_iff {t : Bytes} {c : UInt8} (hc : c < 128) : Utf8 (c :: t) ↔ Utf8 t :=
  (utf8_append_cons_iff (s := []) hc).trans (and_iff_right utf8_nil)

theorem utf8_toDecimal (n : Nat) : Utf8 (toDecimal n) := by
  refine utf8_of_ascii fun c hc => ?_
  obtain ⟨d, hd, rfl⟩ := mem_numeral (by decide) hc
  interval_cases d <;> decide

/-- The part of `Text` that the bytes as a whole decide. -/
def Atom.Utf8 : Atom → Prop
  | .string s => Json.Utf8 s
  | _ => True

theorem utf8_writeAtom_iff (a : Atom) : Json.Utf8 (writeAtom a) ↔ a.Utf8 := by
  cases a with
  | string s =>
    rw [writeAtom, writeText, utf8_cons_iff (by decide), utf8_append_cons_iff (by decide)]
    exact and_iff_left utf8_nil
  | number n => exact iff_of_true (utf8_toDecimal n) trivial
  | bool b => exact iff_of_true (utf8_of_ascii (by cases b <;> decide)) trivial
  | null => exact iff_of_true (utf8_of_ascii (by decide)) trivial

theorem utf8_writeMembers_iff (o : Object) :
    Json.Utf8 (writeMembers o) ↔ ∀ m ∈ o, Json.Utf8 m.1 ∧ m.2.Utf8 := by
  have hmember : ∀ m : Bytes × Atom, Json.Utf8 (writeMember m) ↔ Json.Utf8 m.1 ∧ m.2.Utf8 := by
    intro m
    rw [← List.append_nil (writeMember m), writeMember_append, utf8_cons_iff (by decide),
      utf8_append_cons_iff (by decide), utf8_cons_iff (by decide), utf8_cons_iff (by decide),
      List.append_nil, utf8_writeAtom_iff]
  induction o with
  | nil => exact iff_of_true utf8_nil (by simp)
  | cons m ms ih =>
    cases ms with
    | nil => rw [writeMembers, hmember, List.forall_mem_singleton]
    | cons m' ms =>
      rw [← List.append_nil (writeMembers _), writeMembers_cons_cons,
        utf8_append_cons_iff (by decide), utf8_cons_iff (by decide), List.append_nil,
        List.forall_mem_cons]
      exact and_congr (hmember m) ih

theorem utf8_write_iff (o : Object) :
    Json.Utf8 (write o) ↔ ∀ m ∈ o, Json.Utf8 m.1 ∧ m.2.Utf8 := by
  rw [write_eq, utf8_cons_iff (by decide), utf8_append_cons_iff (by decide), utf8_writeMembers_iff]
  exact and_iff_left utf8_nil

/-- **Writing without escapes.** The text of `o` denotes an object with the same
names and strings exactly if that is `o`, and the texts of `o` are plain UTF-8. -/
theorem denotes_write_iff {o o' : Object} (hnames : ∀ m ∈ o, Text m.1)
    (hsame : SameStrings o o') :
    Denotes (write o) (.object o'.toMembers) ↔ o' = o ∧ ∀ m ∈ o, m.2.Text := by
  have hsplit : (∀ m ∈ o, m.2.Text) ↔ (∀ m ∈ o, m.2.Plain) ∧ ∀ m ∈ o, m.2.Utf8 := by
    rw [← forall₂_and]
    refine forall₂_congr fun m _ => ?_
    cases m.2 with
    | string s => exact Iff.rfl
    | _ => exact (and_self_iff).symm
  have hutf : Json.Utf8 (write o) ↔ ∀ m ∈ o, m.2.Utf8 := by
    rw [utf8_write_iff]
    exact forall₂_congr fun m hm => and_iff_right (hnames m hm).2
  rw [hsplit]
  constructor
  · rintro ⟨hbytes, t, r, hws, hvalue, -⟩
    suffices hplain : o' = o ∧ ∀ m ∈ o, m.2.Plain from ⟨hplain.1, hplain.2, hutf.mp hbytes⟩
    cases o with
    | nil =>
      cases hsame with
      | nil => exact ⟨rfl, fun m hm => absurd hm List.not_mem_nil⟩
    | cons m ms =>
      obtain ⟨z, hz⟩ := head_writeMembers m ms [125]
      have hskip : skipWs (writeMembers (m :: ms) ++ [125]) = writeMembers (m :: ms) ++ [125] := by
        rw [hz]
        exact skipWs_of_head rfl z
      rw [write_eq] at hws
      rw [hws.eq_of_head rfl] at hvalue
      cases hsame with
      | @cons _ m' _ ms' hm hms =>
        cases hvalue with
        | object hmembers =>
          exact members_writeMembers (List.cons_ne_nil m ms) (fun m hm => (hnames m hm).1)
            (.cons hm hms) hskip hmembers
  · rintro ⟨rfl, hplain, hbytes⟩
    exact denotes_of_read (hutf.mpr hbytes) (read_write fun m hm => ⟨(hnames m hm).1, hplain m hm⟩)

end Json
