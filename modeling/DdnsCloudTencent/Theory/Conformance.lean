import DdnsCloudTencent.Lib.JsonGrammar
import DdnsCloudTencent.Lib.Outcome
import DdnsCloudTencent.Theory.Parsing

/-!
# The JSON reader accepts JSON (util/tretap_CJSON.c)

Every text of the grammar (`Json.Denotes`) is read to its end and gives the tree
of the value it denotes, whatever its white space and its escapes are, unless an
exponent is in the way (`parse_of_denotes`). Which exponents those are, and how deep
the calls go, is left to `parse_conforms`.

- `Reads`: the tree of a value. A string loses the NULs it denotes
  (tretap_CJSON.c:222), since the node holds a C string;
- `ReadsNumber`: the double of a number, computed from one of its notations;
- `Accepts`: what a parser returns on a text of the grammar.
-/

namespace DdnsCloudTencent
open Cxx Json

/-- What a C string keeps of a text. -/
def nonzero (s : Bytes) : Bytes := s.filter (· ≠ 0)

theorem nonzero_append (s t : Bytes) : nonzero (s ++ t) = nonzero s ++ nonzero t :=
  List.filter_append ..

theorem nonzero_cons {c : UInt8} (hc : c ≠ 0) (s : Bytes) : nonzero (c :: s) = c :: nonzero s :=
  List.filter_cons_of_pos (by simpa using hc)

theorem val_charOfNat {u : Nat} (h : u.isValidChar) : (Char.ofNat u).val.toNat = u := by
  rw [Char.ofNat, dif_pos h]
  rfl

/-- The bytes written for a code point are its UTF-8 encoding. -/
theorem utf8_eq {u : Nat} (h : u.isValidChar) :
    utf8 u = String.utf8EncodeChar (Char.ofNat u) := by
  have hlt : u < 0x110000 := by
    rcases h with h | h <;> omega
  have hbyte : ∀ n : Nat, n.toUInt8 = UInt8.ofNat n := fun _ => rfl
  have h1 : u < 0x80 ↔ u ≤ 0x7f := by omega
  have h2 : u < 0x800 ↔ u ≤ 0x7ff := by omega
  have h3 : u < 0x10000 ↔ u ≤ 0xffff := by omega
  unfold utf8 String.utf8EncodeChar
  simp only [val_charOfNat h, hbyte, h1, h2, h3]
  -- the standard's masks change nothing, for the number of bytes
  split_ifs with h₁ h₂ h₃
  · rfl
  · rw [Nat.mod_eq_of_lt (show u / 64 < 32 by omega), Nat.add_comm, Nat.add_comm (u % 64)]
  · rw [Nat.mod_eq_of_lt (show u / 4096 < 16 by omega), Nat.add_comm (u / 4096),
      Nat.add_comm (u / 64 % 64), Nat.add_comm (u % 64)]
  · rw [Nat.mod_eq_of_lt (show u / 262144 < 8 by omega), Nat.add_comm (u / 262144),
      Nat.add_comm (u / 4096 % 64), Nat.add_comm (u / 64 % 64), Nat.add_comm (u % 64)]

/-- The encoding of a character other than NUL has no zero byte. -/
theorem nonzero_utf8EncodeChar {u : Nat} (h : u.isValidChar) (hne : u ≠ 0) :
    nonzero (String.utf8EncodeChar (Char.ofNat u)) = String.utf8EncodeChar (Char.ofNat u) := by
  rw [nonzero, List.filter_eq_self]
  rcases utf8EncodeChar_cases (Char.ofNat u) with ⟨b, hb, henc⟩ | hbig
  · rw [← utf8_eq h] at henc ⊢
    unfold utf8 at henc ⊢
    split_ifs at henc ⊢ with h₁ h₂ h₃
    · have : u.toUInt8 ≠ 0 := by
        intro h0
        have := congrArg UInt8.toNat h0
        change u % 256 = 0 at this
        omega
      simpa using this
    all_goals simp at henc
  · intro c hc
    have hc' := hbig c hc
    have : c ≠ 0 := by
      rintro rfl
      exact absurd hc' (by decide)
    simpa using this

/-- A digit and the lower-case digit of the same value. -/
theorem hexDigit_of_isHexDigit {c : UInt8} (h : isHexDigit c = true) :
    hexDigit c = some (digitValue (if 65 ≤ c ∧ c ≤ 70 then c + 32 else c)) := by
  simp only [isHexDigit, isDigit, Bool.or_eq_true, Bool.and_eq_true, decide_eq_true_eq] at h
  unfold hexDigit
  rcases h with (h | h) | h
  · have hupper : ¬ (65 ≤ c ∧ c ≤ 70) := fun hc => absurd (UInt8.le_trans hc.1 h.2) (by decide)
    rw [if_pos h, if_neg hupper, digitValue_of_isDigit (by simpa [isDigit] using h)]
  · have hdigit : ¬ (48 ≤ c ∧ c ≤ 57) := fun hc => absurd (UInt8.le_trans h.1 hc.2) (by decide)
    have hupper : ¬ (65 ≤ c ∧ c ≤ 70) := fun hc => absurd (UInt8.le_trans h.1 hc.2) (by decide)
    have hbig : ¬ c.toNat < 58 := by
      have h97 := UInt8.le_iff_toNat_le.mp h.1
      change 97 ≤ c.toNat at h97
      omega
    rw [if_neg hdigit, if_neg hupper, if_pos h, if_neg hupper, digitValue, if_neg hbig]
  · have hdigit : ¬ (48 ≤ c ∧ c ≤ 57) := fun hc => absurd (UInt8.le_trans h.1 hc.2) (by decide)
    have hlow := UInt8.le_iff_toNat_le.mp h.1
    have hhigh := UInt8.le_iff_toNat_le.mp h.2
    change 65 ≤ c.toNat at hlow
    change c.toNat ≤ 70 at hhigh
    have hvalue : (c + 32).toNat = c.toNat + 32 := by
      rw [UInt8.toNat_add]
      exact Nat.mod_eq_of_lt (by change c.toNat + 32 < 256; omega)
    rw [if_neg hdigit, if_pos h, if_pos h, digitValue, hvalue, if_neg (by omega)]
    exact congrArg some (by omega)

/-- Four digits are read as `%4x` reads them. -/
theorem parseHex4_of_hex4 {a b c d : UInt8} {u : Nat} (h : hex4 a b c d = some u) :
    parseHex4 a b c d = u := by
  unfold hex4 at h
  split at h
  · next hdigits =>
    simp only [Bool.and_eq_true, and_assoc] at hdigits
    obtain ⟨ha, hb, hc, hd⟩ := hdigits
    obtain rfl := Option.some.inj h
    simp only [parseHex4, hexDigit_of_isHexDigit ha, hexDigit_of_isHexDigit hb,
      hexDigit_of_isHexDigit hc, hexDigit_of_isHexDigit hd]
    have hdigits : ∀ e ∈ [a, b, c, d], isHexDigit e = true := by simp [ha, hb, hc, hd]
    rw [strtol16_of_hexDigits hdigits]
    simp only [ofNumeral, List.map_cons, List.map_nil, List.reverse_cons, List.reverse_nil,
      List.nil_append, List.cons_append, Nat.ofDigits_cons, Nat.ofDigits_nil, Int.toNat_natCast]
    ring
  · cases h

theorem hexDigit_lt {c : UInt8} {n : Nat} (h : hexDigit c = some n) : n < 16 := by
  unfold hexDigit at h
  split_ifs at h with h₁ h₂ h₃ <;> obtain rfl := Option.some.inj h <;>
    simp only [UInt8.le_iff_toNat_le] at * <;> simp at * <;> omega

theorem parseHex4_lt (a b c d : UInt8) : parseHex4 a b c d < 65536 := by
  unfold parseHex4
  split
  · next w x y z hw hx hy hz =>
    have := hexDigit_lt hw
    have := hexDigit_lt hx
    have := hexDigit_lt hy
    have := hexDigit_lt hz
    omega
  · decide


theorem length_utf8_le (u : Nat) : (utf8 u).length ≤ 4 := by
  unfold utf8
  split_ifs <;> simp

theorem isHexDigit_of_hex4 {h₁ h₂ h₃ h₄ : UInt8} {u : Nat} (h : hex4 h₁ h₂ h₃ h₄ = some u) :
    isHexDigit h₁ = true ∧ isHexDigit h₂ = true ∧ isHexDigit h₃ = true ∧
      isHexDigit h₄ = true := by
  by_contra hno
  simp [hex4, and_assoc, hno] at h

theorem escapeByte_of_escaped {e b : UInt8} (h : escaped e = some b) :
    e ≠ 117 ∧ escapeByte e = b ∧ b ≠ 0 := by
  unfold escaped at h
  unfold escapeByte
  split_ifs at h with h₁ h₂ h₃ h₄ h₅ h₆
  · obtain rfl := Option.some.inj h
    rcases h₁ with rfl | rfl | rfl <;> decide
  all_goals
    obtain rfl := Option.some.inj h
    subst e
    decide

/-- A byte that a string holds for itself. -/
theorem scanString_plain {c : UInt8} (hquote : c ≠ 34) (hback : c ≠ 92) (t : Bytes) :
    scanString (c :: t) = (scanString t).map (· + 1) := by
  cases t with
  | nil =>
    rw [scanString.eq_def]
    simp only [if_neg hquote, if_neg hback]
    rfl
  | cons d t => rw [scanString, if_neg hquote, if_neg hback]

theorem unescape_plain {c : UInt8} (hquote : c ≠ 34) (hback : c ≠ 92) (t : Bytes) :
    unescape (c :: t) = (unescape t).map fun r => (c :: r.1, r.2) := by
  cases t <;> rw [unescape.eq_def]
  · simp only [if_neg hquote, if_neg hback]
    rfl
  · simp only [if_neg hquote, if_pos hback]

theorem scanString_escape (e : UInt8) (t : Bytes) :
    scanString (92 :: e :: t) = (scanString t).map (· + 1) := by
  rw [scanString.eq_def]
  rfl

theorem unescape_escape {e : UInt8} (he : e ≠ 117) (t : Bytes) :
    unescape (92 :: e :: t) = (unescape t).map fun r => (escapeByte e :: r.1, r.2) := by
  rw [unescape.eq_def]
  exact if_pos he

/-- The digits of an escape are scanned like any text. -/
theorem scanString_four {h₁ h₂ h₃ h₄ : UInt8}
    (h : ∀ c ∈ [h₁, h₂, h₃, h₄], c ≠ 34 ∧ c ≠ 92) (t : Bytes) :
    scanString (h₁ :: h₂ :: h₃ :: h₄ :: t) = (scanString t).map (· + 4) := by
  obtain ⟨hne₁, hne₂, hne₃, hne₄, -⟩ := by simpa only [List.forall_mem_cons] using h
  rw [scanString_plain hne₁.1 hne₁.2, scanString_plain hne₂.1 hne₂.2,
    scanString_plain hne₃.1 hne₃.2, scanString_plain hne₄.1 hne₄.2]
  cases scanString t <;> rfl

theorem ne_of_hex4 {h₁ h₂ h₃ h₄ : UInt8} {u : Nat} (h : hex4 h₁ h₂ h₃ h₄ = some u) :
    ∀ c ∈ [h₁, h₂, h₃, h₄], c ≠ 34 ∧ c ≠ 92 := by
  obtain ⟨hd₁, hd₂, hd₃, hd₄⟩ := isHexDigit_of_hex4 h
  have hne : ∀ c : UInt8, isHexDigit c = true → c ≠ 34 ∧ c ≠ 92 := by
    rintro c hc
    constructor <;> rintro rfl <;> exact absurd hc (by decide)
  simp [hne _ hd₁, hne _ hd₂, hne _ hd₃, hne _ hd₄]

/-- **Both loops of `parse_string` on a string of the grammar**: the second one
writes what the string denotes, less its NULs, and the first one has counted at
least as many bytes. -/
theorem unescape_of_stringText {t s r : Bytes} (h : StringText t s r) :
    unescape t = .ok (nonzero s, r) ∧
      ∃ len, scanString t = .ok len ∧ (nonzero s).length ≤ len := by
  induction h with
  | @quote t =>
    constructor
    · cases t <;> rw [unescape.eq_def] <;> rfl
    · exact ⟨0, by cases t <;> rw [scanString.eq_def] <;> rfl, Nat.zero_le _⟩
  | @plain c t s r hctrl hquote hback h ih =>
    obtain ⟨hout, len, hlen, hle⟩ := ih
    have hne : c ≠ 0 := by
      rintro rfl
      exact absurd hctrl (by decide)
    have hs : nonzero (c :: s) = c :: nonzero s := nonzero_cons hne s
    rw [unescape_plain hquote hback, scanString_plain hquote hback, hout, hlen, hs]
    exact ⟨rfl, len + 1, rfl, by simpa using hle⟩
  | @escape e b t s r hesc h ih =>
    obtain ⟨hout, len, hlen, hle⟩ := ih
    obtain ⟨he, hb, hne⟩ := escapeByte_of_escaped hesc
    have hs : nonzero (b :: s) = b :: nonzero s := nonzero_cons hne s
    rw [unescape_escape he, scanString_escape, hout, hlen, hs, hb]
    exact ⟨rfl, len + 1, rfl, by simpa using hle⟩
  | @unicode h₁ h₂ h₃ h₄ u t s r hhex hscalar h ih =>
    obtain ⟨hout, len, hlen, hle⟩ := ih
    have hscan : scanString (92 :: 117 :: h₁ :: h₂ :: h₃ :: h₄ :: t) = .ok (len + 4 + 1) := by
      rw [scanString_escape, scanString_four (ne_of_hex4 hhex), hlen]
      rfl
    have hvalue := parseHex4_of_hex4 hhex
    have hlt : u < 65536 := hvalue ▸ parseHex4_lt h₁ h₂ h₃ h₄
    have hvalid : u.isValidChar := by
      simp only [Nat.isValidChar]
      omega
    have hwrite : unescape (92 :: 117 :: h₁ :: h₂ :: h₃ :: h₄ :: t) =
        if u = 0 then unescape t else (unescape t).map fun r => (utf8 u ++ r.1, r.2) := by
      have hlow : ¬ (0xDC00 ≤ u ∧ u ≤ 0xDFFF) := by omega
      have hhigh : ¬ (0xD800 ≤ u ∧ u ≤ 0xDBFF) := by omega
      rw [unescape.eq_def]
      simp only [hvalue, hlow, hhigh, false_or, if_false]
      rfl
    rw [hwrite, hscan, hout, nonzero_append]
    by_cases hzero : u = 0
    · subst hzero
      exact ⟨rfl, _, rfl, hle.trans (by omega)⟩
    · have hfour := length_utf8_le u
      rw [if_neg hzero, nonzero_utf8EncodeChar hvalid hzero, ← utf8_eq hvalid]
      exact ⟨rfl, _, rfl, by rw [List.length_append]; omega⟩
  | @surrogates h₁ h₂ h₃ h₄ l₁ l₂ l₃ l₄ hi lo t s r hhi hlo hhigh hlow h ih =>
    obtain ⟨hout, len, hlen, hle⟩ := ih
    have hscan : scanString (92 :: 117 :: h₁ :: h₂ :: h₃ :: h₄ :: 92 :: 117 :: l₁ :: l₂ :: l₃ ::
        l₄ :: t) = .ok (len + 4 + 1 + 4 + 1) := by
      have hsecond : scanString (92 :: 117 :: l₁ :: l₂ :: l₃ :: l₄ :: t) = .ok (len + 4 + 1) := by
        rw [scanString_escape, scanString_four (ne_of_hex4 hlo), hlen]
        rfl
      rw [scanString_escape, scanString_four (ne_of_hex4 hhi), hsecond]
      rfl
    have hpair : 0x10000 + (hi % 1024) * 1024 + lo % 1024 =
        0x10000 + (hi - 0xD800) * 0x400 + (lo - 0xDC00) := by omega
    have hvalid : (0x10000 + (hi - 0xD800) * 0x400 + (lo - 0xDC00)).isValidChar := by
      simp only [Nat.isValidChar]
      omega
    have hwrite : unescape (92 :: 117 :: h₁ :: h₂ :: h₃ :: h₄ :: 92 :: 117 :: l₁ :: l₂ :: l₃ ::
        l₄ :: t) = (unescape t).map fun r =>
          (utf8 (0x10000 + (hi - 0xD800) * 0x400 + (lo - 0xDC00)) ++ r.1, r.2) := by
      have hnot : ¬ ((0xDC00 ≤ hi ∧ hi ≤ 0xDFFF) ∨ hi = 0) := by omega
      have hlead : 0xD800 ≤ hi ∧ hi ≤ 0xDBFF := by omega
      have htrail : ¬ (lo < 0xDC00 ∨ lo > 0xDFFF) := by omega
      rw [unescape.eq_def]
      simp only [parseHex4_of_hex4 hhi, parseHex4_of_hex4 hlo, hnot, hlead, htrail, hpair, and_self,
        if_true, if_false]
      rfl
    have hfour := length_utf8_le (0x10000 + (hi - 0xD800) * 0x400 + (lo - 0xDC00))
    rw [hwrite, hscan, hout, nonzero_append, nonzero_utf8EncodeChar hvalid (by omega),
      ← utf8_eq hvalid]
    exact ⟨rfl, _, rfl, by rw [List.length_append]; omega⟩


/-- `parse_string` on a string of the grammar. -/
theorem parseString_of_stringText {t s r : Bytes} (h : StringText t s r) :
    ∃ c : CStr, c.toBytes = nonzero s ∧ parseString (34 :: t) = .ok (some (c, r)) := by
  obtain ⟨hout, len, hlen, hle⟩ := unescape_of_stringText h
  have hnul : 0 ∉ nonzero s := by simp [nonzero]
  refine ⟨cStr (nonzero s), cStr_toBytes_of_noNul hnul, ?_⟩
  rw [parseString, if_neg (by simp), hlen, hout]
  exact if_neg (Nat.not_lt.mpr hle)

/-! ## Numbers -/

/-- The double that the reader computes for a number, from one of its notations. -/
def ReadsNumber (M : Machine) (q : ℚ) (d : Double) : Prop :=
  ∃ (sign : ℚ) (ds : Bytes) (e : ℤ), (sign = 1 ∨ sign = -1) ∧ (∀ c ∈ ds, isDigit c = true) ∧
    q = sign * ofNumeral 10 ds * 10 ^ e ∧
    d = ((Double.finite sign).mul (accumulate (.finite 0) ds)).mul (M.pow10 e)

theorem digits_split {t ds r : Bytes} (h : Digits t ds r) :
    t = ds ++ r ∧ ds ≠ [] ∧ ∀ c ∈ ds, isDigit c = true := by
  induction h with
  | one hd => exact ⟨rfl, List.cons_ne_nil _ _, by simpa using hd⟩
  | cons hd _ ih =>
    exact ⟨by rw [ih.1]; rfl, List.cons_ne_nil _ _, List.forall_mem_cons.mpr ⟨hd, ih.2.2⟩⟩

/-- A run of digits is read to its end. -/
theorem span_digits {ds r : Bytes} (hds : ∀ c ∈ ds, isDigit c = true)
    (hr : ∀ c ∈ r.head?, isDigit c = false) :
    (ds ++ r).takeWhile isDigit = ds ∧ (ds ++ r).dropWhile isDigit = r := by
  rw [List.takeWhile_append_of_pos hds, List.dropWhile_append_of_pos hds]
  cases r with
  | nil => simp
  | cons c r => simp [hr c rfl]

theorem ofNumeral_zero_cons (ds : Bytes) : ofNumeral 10 (48 :: ds) = ofNumeral 10 ds := by
  have hzero : digitValue 48 = 0 := rfl
  simp [ofNumeral, hzero, Nat.ofDigits_append]

/-- The integer part of the grammar, without its one leading zero. -/
theorem integerPart_of_digits {t int r : Bytes} (h : Digits t int r)
    (hlead : int.head? = some 48 → int = [48]) (hr : ∀ c ∈ r.head?, isDigit c = false) :
    ∃ ds, integerPart t = (ds, r) ∧ (∀ c ∈ ds, isDigit c = true) ∧
      ∀ frac, ofNumeral 10 (int ++ frac) = ofNumeral 10 (ds ++ frac) := by
  obtain ⟨rfl, hne, hint⟩ := digits_split h
  obtain ⟨c, int, rfl⟩ := List.exists_cons_of_ne_nil hne
  by_cases hc : c = 48
  · subst hc
    obtain ⟨-, rfl⟩ := List.cons.inj (hlead rfl)
    exact ⟨[], integerPart_zero hr, nofun, fun frac => ofNumeral_zero_cons frac⟩
  · have hdigit := hint c List.mem_cons_self
    have hsig : 49 ≤ c ∧ c ≤ 57 := by
      simp only [isDigit, Bool.and_eq_true, decide_eq_true_eq, UInt8.le_iff_toNat_le] at hdigit ⊢
      have h48 : c.toNat ≠ 48 := fun h => hc (UInt8.toNat_inj.mp h)
      simp at hdigit ⊢
      omega
    obtain ⟨htake, hdrop⟩ := span_digits hint hr
    refine ⟨c :: int, ?_, hint, fun _ => rfl⟩
    rw [List.cons_append, integerPart_of_significant hsig, ← List.cons_append, htake, hdrop]

theorem fractionPart_of_fraction {t frac r : Bytes} (h : Fraction t frac r)
    (hr : ∀ c ∈ r.head?, isDigit c = false ∧ c ≠ 46) :
    fractionPart t = (frac, r) ∧ ∀ c ∈ frac, isDigit c = true := by
  cases h with
  | absent =>
    refine ⟨?_, nofun⟩
    unfold fractionPart
    split
    · exact absurd rfl (hr 46 rfl).2
    · rfl
  | digits h =>
    obtain ⟨rfl, hne, hfrac⟩ := digits_split h
    obtain ⟨d, frac, rfl⟩ := List.exists_cons_of_ne_nil hne
    obtain ⟨htake, hdrop⟩ := span_digits hfrac fun c hc => (hr c hc).1
    rw [List.cons_append] at htake hdrop
    refine ⟨?_, hfrac⟩
    rw [List.cons_append, fractionPart, if_pos (hfrac d List.mem_cons_self), htake, hdrop]

/-- The exponent of the grammar, unless it does not fit an `int`. -/
theorem exponentPart_of_exponent {t r : Bytes} {e : ℤ} (h : Exponent t e r) (hr : Stops r) :
    exponentPart t = .ok (e, r) ∨ exponentPart t = .error .intOverflow := by
  cases h with
  | absent => exact .inl (exponentPart_of_stops hr)
  | @digits x t t' ds r sign hx hsign h =>
    obtain ⟨rfl, hne, hds⟩ := digits_split h
    obtain ⟨htake, hdrop⟩ := span_digits hds fun c hc => (hr c hc).1
    have hstep : exponentPart (x :: t) =
        if 2 ^ 31 ≤ ofNumeral 10 ds then .error .intOverflow
        else .ok (sign * ofNumeral 10 ds, r) := by
      rw [exponentPart.eq_def]
      simp only [if_pos hx]
      cases hsign with
      | plus => simp only [htake, hdrop]
      | minus => simp only [htake, hdrop]
      | absent =>
        obtain ⟨d, ds, rfl⟩ := List.exists_cons_of_ne_nil hne
        have hd := hds d List.mem_cons_self
        split
        · next heq =>
          rw [List.cons_append] at heq
          exact absurd ((List.cons.inj heq).1 ▸ hd) (by decide)
        · next heq =>
          rw [List.cons_append] at heq
          exact absurd ((List.cons.inj heq).1 ▸ hd) (by decide)
        · simp only [htake, hdrop]
    rw [hstep]
    split_ifs
    · exact .inr rfl
    · exact .inl rfl


/-! ## What a parser of the grammar has to return -/

/-- A parser's result on a text that denotes `v` and goes on with `rest`. -/
abbrev Accepts {α β : Type} (R : α → β → Prop) (v : α) (rest : Bytes) :
    Except Fault (Option (β × Bytes)) → Prop :=
  Returns (· = .intOverflow) False fun x t => R v x ∧ t = rest

theorem ne_minus_of_digits {t ds r : Bytes} (h : Digits t ds r) : ∃ c t', t = c :: t' ∧ c ≠ 45 := by
  obtain ⟨rfl, hne, hds⟩ := digits_split h
  obtain ⟨c, ds, rfl⟩ := List.exists_cons_of_ne_nil hne
  refine ⟨c, ds ++ r, rfl, ?_⟩
  rintro rfl
  exact absurd (hds 45 List.mem_cons_self) (by decide)

/-- `parse_number` behind the sign. -/
theorem parseNumber_of_minus (M : Machine) {t t' : Bytes} {sign : ℚ} (h : Minus t sign t')
    (hdigit : ∃ c s, t' = c :: s ∧ c ≠ 45) :
    parseNumber M t = (do
      let (subscale, rest) ← exponentPart (fractionPart (integerPart t').2).2
      let n := accumulate (accumulate (.finite 0) (integerPart t').1)
        (fractionPart (integerPart t').2).1
      let n := ((Double.finite sign).mul n).mul
        (M.pow10 (-(fractionPart (integerPart t').2).1.length + subscale))
      .ok (.number (M.toInt32 n) n, rest)) := by
  cases h with
  | absent =>
    obtain ⟨c, s, rfl, hc⟩ := hdigit
    exact parseNumber_unsigned M hc s
  | minus => rfl

/-- **`parse_number` on a number of the grammar.** -/
theorem parseNumber_of_numberText (M : Machine) {t r : Bytes} {q : ℚ} (h : NumberText t q r)
    (hr : Stops r) :
    Accepts (fun q c => ∃ d, c = CJson.number (M.toInt32 d) d ∧ ReadsNumber M q d) q r
      ((parseNumber M t).map some) := by
  cases h with
  | @mk t₁ t₂ t₃ _ int frac sign e hminus hint hlead hfrac hexp =>
    have ht₃ : ∀ c ∈ t₃.head?, isDigit c = false ∧ c ≠ 46 := by
      cases hexp with
      | absent => exact fun c hc => ⟨(hr c hc).1, (hr c hc).2.1⟩
      | digits hx _ _ =>
        rintro c hc
        obtain rfl := Option.some.inj hc
        rcases hx with rfl | rfl <;> decide
    have ht₂ : ∀ c ∈ t₂.head?, isDigit c = false := by
      cases hfrac with
      | absent => exact fun c hc => (ht₃ c hc).1
      | digits _ =>
        rintro c hc
        obtain rfl := Option.some.inj hc
        rfl
    obtain ⟨ds, hds, hdigits, hvalue⟩ := integerPart_of_digits hint hlead ht₂
    obtain ⟨hfrac', hfracs⟩ := fractionPart_of_fraction hfrac ht₃
    rw [parseNumber_of_minus M hminus (ne_minus_of_digits hint), hds, hfrac']
    rcases exponentPart_of_exponent hexp hr with hexp' | hover
    · rw [hexp']
      refine ⟨⟨_, rfl, sign, ds ++ frac, -frac.length + e, ?_, ?_, ?_, ?_⟩, rfl⟩
      · cases hminus <;> simp
      · exact fun c hc => (List.mem_append.mp hc).elim (hdigits c) (hfracs c)
      · rw [hvalue, neg_add_eq_sub]
      · simp only [accumulate, List.foldl_append]
    · rw [hover]
      rfl


/-! ## Values -/

mutual

/-- The tree of a value. -/
inductive Reads (M : Machine) : Value → CJson → Prop where
  | null : Reads M .null .null
  | true : Reads M (.bool true) .true
  | false : Reads M (.bool false) .false
  | number {q : ℚ} {d : Double} : ReadsNumber M q d →
      Reads M (.number q) (.number (M.toInt32 d) d)
  | string {s : Bytes} {c : CStr} : c.toBytes = nonzero s → Reads M (.string s) (.string c)
  | array {vs : List Value} {cs : List CJson} : ReadsElements M vs cs →
      Reads M (.array vs) (.array cs)
  | object {ms : List (Bytes × Value)} {cs : List (CStr × CJson)} : ReadsMembers M ms cs →
      Reads M (.object ms) (.object cs)

/-- The children of an array. -/
inductive ReadsElements (M : Machine) : List Value → List CJson → Prop where
  | nil : ReadsElements M [] []
  | cons {v : Value} {c : CJson} {vs : List Value} {cs : List CJson} : Reads M v c →
      ReadsElements M vs cs → ReadsElements M (v :: vs) (c :: cs)

/-- The children of an object with their names. -/
inductive ReadsMembers (M : Machine) : List (Bytes × Value) → List (CStr × CJson) → Prop where
  | nil : ReadsMembers M [] []
  | cons {s : Bytes} {name : CStr} {v : Value} {c : CJson} {ms : List (Bytes × Value)}
      {cs : List (CStr × CJson)} : name.toBytes = nonzero s → Reads M v c →
      ReadsMembers M ms cs → ReadsMembers M ((s, v) :: ms) ((name, c) :: cs)

end

/-- White space of the grammar is skipped up to a byte above it. -/
theorem skip_of_ws {t r : Bytes} (h : Ws t r) (hr : ∀ c ∈ r.head?, 32 < c) : skip t = r := by
  have hdrop : skip r = r := by
    cases r with
    | nil => rfl
    | cons c r => exact List.dropWhile_cons_of_neg (by simpa using hr c rfl)
  induction h with
  | nil => exact hdrop
  | @cons c t r hc _ ih =>
    have hle : c ≤ 32 := by
      simp only [isWs, Bool.or_eq_true, beq_iff_eq] at hc
      rcases hc with ((rfl | rfl) | rfl) | rfl <;> decide
    rw [skip, List.dropWhile_cons_of_pos (by simpa using hle)]
    exact ih hr hdrop

theorem stops_of_ws {t r : Bytes} (h : Ws t r) (hr : Stops r) : Stops t := by
  cases h with
  | nil => exact hr
  | cons hc _ =>
    rintro c hcm
    obtain rfl := Option.some.inj hcm
    simp only [isWs, Bool.or_eq_true, beq_iff_eq] at hc
    rcases hc with ((rfl | rfl) | rfl) | rfl <;> decide

theorem head_of_numberText {t r : Bytes} {q : ℚ} (h : NumberText t q r) :
    ∃ c s, t = c :: s ∧ (c = 45 ∨ isDigit c = true) := by
  cases h with
  | mk hminus hint _ _ _ =>
    cases hminus with
    | minus => exact ⟨_, _, rfl, .inl rfl⟩
    | absent =>
      obtain ⟨rfl, hne, hds⟩ := digits_split hint
      obtain ⟨c, ds, rfl⟩ := List.exists_cons_of_ne_nil hne
      exact ⟨c, _, rfl, .inr (hds c List.mem_cons_self)⟩

/-- The first byte of a value. -/
theorem head_of_valueText {t r : Bytes} {v : Value} (h : ValueText t v r) :
    ∃ c s, t = c :: s ∧ 32 < c ∧ c ≠ 93 := by
  cases h with
  | null | true | false | string | emptyArray | array | emptyObject | object =>
    exact ⟨_, _, rfl, by decide, by decide⟩
  | number h =>
    obtain ⟨c, s, rfl, rfl | hc⟩ := head_of_numberText h
    · exact ⟨_, _, rfl, by decide, by decide⟩
    · simp only [isDigit, Bool.and_eq_true, decide_eq_true_eq] at hc
      refine ⟨c, _, rfl, UInt8.lt_of_lt_of_le (by decide) hc.1, ?_⟩
      rintro rfl
      exact absurd hc.2 (by decide)

theorem ws_of_elements {t r : Bytes} {vs : List Value} (h : Elements t vs r) :
    ∃ d s, skip t = d :: s ∧ d ≠ 93 ∧ Elements (d :: s) vs r := by
  cases h with
  | last hws hv hend =>
    obtain ⟨c, s, rfl, hc, hne⟩ := head_of_valueText hv
    exact ⟨c, s, skip_of_ws hws (by simpa using hc), hne, .last .nil hv hend⟩
  | more hws hv hcomma hvs =>
    obtain ⟨c, s, rfl, hc, hne⟩ := head_of_valueText hv
    exact ⟨c, s, skip_of_ws hws (by simpa using hc), hne, .more .nil hv hcomma hvs⟩

theorem ws_of_members {t r : Bytes} {ms : List (Bytes × Value)} (h : Members t ms r) :
    ∃ s, skip t = 34 :: s ∧ Members (34 :: s) ms r := by
  cases h with
  | last hm hend =>
    cases hm with
    | mk hws hname hcolon hblank hv =>
      exact ⟨_, skip_of_ws hws (by simp), .last (.mk .nil hname hcolon hblank hv) hend⟩
  | more hm hcomma hms =>
    cases hm with
    | mk hws hname hcolon hblank hv =>
      exact ⟨_, skip_of_ws hws (by simp), .more (.mk .nil hname hcolon hblank hv) hcomma hms⟩

section

variable (M : Machine) (fuel : Nat) {s t : Bytes} {c d : UInt8}

/-- What starts with none of the first letters is no literal. -/
theorem isPrefixOf_literal (hc : c ≠ 110 ∧ c ≠ 102 ∧ c ≠ 116) :
    (bytes "null").isPrefixOf (c :: s) = false ∧ (bytes "false").isPrefixOf (c :: s) = false ∧
      (bytes "true").isPrefixOf (c :: s) = false := by
  have hhead : ∀ (d : UInt8) (w : Bytes), c ≠ d → (d :: w).isPrefixOf (c :: s) = false := by
    intro d w h
    simp [List.isPrefixOf, h.symm]
  exact ⟨hhead 110 (bytes "ull") hc.1, hhead 102 (bytes "alse") hc.2.1,
    hhead 116 (bytes "rue") hc.2.2⟩

theorem parseValue_string : parseValue M (fuel + 1) (34 :: s) =
    (parseString (34 :: s)).map fun r => r.map fun x => (.string x.1, x.2) := by
  obtain ⟨hn, hf, ht⟩ := isPrefixOf_literal (c := 34) (s := s) (by decide)
  rw [parseValue.eq_def]
  simp only [hn, hf, ht]
  rfl

theorem parseValue_number (hc : c = 45 ∨ isDigit c = true) :
    parseValue M (fuel + 1) (c :: s) = (parseNumber M (c :: s)).map some := by
  have hne : ∀ d : UInt8, d ≠ 45 → isDigit d = false → c ≠ d := by
    rintro d hd hdigit rfl
    rcases hc with rfl | hc
    · exact hd rfl
    · rw [hc] at hdigit
      cases hdigit
  obtain ⟨hn, hf, ht⟩ := isPrefixOf_literal (c := c) (s := s)
    ⟨hne _ (by decide) rfl, hne _ (by decide) rfl, hne _ (by decide) rfl⟩
  have hquote : c ≠ quote := hne _ (by decide) rfl
  rw [parseValue.eq_def]
  simp only [hn, hf, ht, hquote, hc, Bool.false_eq_true, if_true, if_false]

theorem parseValue_emptyArray (h : skip s = 93 :: t) :
    parseValue M (fuel + 1) (91 :: s) = .ok (some (.array [], t)) := by
  obtain ⟨hn, hf, ht⟩ := isPrefixOf_literal (c := 91) (s := s) (by decide)
  rw [parseValue.eq_def]
  simp only [hn, hf, ht, h]
  rfl

theorem parseValue_array (h : skip s = d :: t) (hd : d ≠ 93) : parseValue M (fuel + 1) (91 :: s) =
    (parseElements M fuel (d :: t)).map fun r => r.map fun x => (.array x.1, x.2) := by
  obtain ⟨hn, hf, ht⟩ := isPrefixOf_literal (c := 91) (s := s) (by decide)
  rw [parseValue.eq_def]
  simp only [hn, hf, ht, h, hd, if_false]
  rfl

theorem parseValue_emptyObject (h : skip s = 125 :: t) :
    parseValue M (fuel + 1) (123 :: s) = .ok (some (.object [], t)) := by
  obtain ⟨hn, hf, ht⟩ := isPrefixOf_literal (c := 123) (s := s) (by decide)
  rw [parseValue.eq_def]
  simp only [hn, hf, ht, h]
  rfl

theorem parseValue_object (h : skip s = d :: t) (hd : d ≠ 125) :
    parseValue M (fuel + 1) (123 :: s) =
      (parseMembers M fuel (d :: t)).map fun r => r.map fun x => (.object x.1, x.2) := by
  obtain ⟨hn, hf, ht⟩ := isPrefixOf_literal (c := 123) (s := s) (by decide)
  rw [parseValue.eq_def]
  simp only [hn, hf, ht, h, hd, if_false]
  rfl

end

/-- The three functions of the grammar with enough fuel. -/
structure GrammarConforms (M : Machine) (fuel : Nat) : Prop where
  value : ∀ {t v r}, ValueText t v r → Stops r → 2 * t.length + 1 ≤ fuel →
    Accepts (Reads M) v r (parseValue M fuel t)
  elements : ∀ {t vs r}, Elements t vs r → 2 * t.length + 2 ≤ fuel →
    Accepts (ReadsElements M) vs r (parseElements M fuel t)
  members : ∀ {t ms r}, Members t ms r → 2 * t.length + 2 ≤ fuel →
    Accepts (ReadsMembers M) ms r (parseMembers M fuel t)

theorem parseValue_conforms {M : Machine} {fuel : Nat} (ih : GrammarConforms M fuel) {t r : Bytes}
    {v : Value} (h : ValueText t v r) (hr : Stops r) (hfuel : 2 * t.length + 1 ≤ fuel + 1) :
    Accepts (Reads M) v r (parseValue M (fuel + 1) t) := by
  cases h with
  | null => exact ⟨.null, rfl⟩
  | true => exact ⟨.true, rfl⟩
  | false => exact ⟨.false, rfl⟩
  | number h =>
    obtain ⟨c, s, rfl, hc⟩ := head_of_numberText h
    rw [parseValue_number M fuel hc]
    refine (parseNumber_of_numberText M h hr).mono ?_
    rintro x t ⟨⟨d, rfl, hd⟩, ht⟩
    exact ⟨.number hd, ht⟩
  | string h =>
    obtain ⟨c, hc, hparse⟩ := parseString_of_stringText h
    rw [parseValue_string, hparse]
    exact ⟨.string hc, rfl⟩
  | emptyArray h =>
    rw [parseValue_emptyArray M fuel (skip_of_ws h (by simp))]
    exact ⟨.array .nil, rfl⟩
  | @array t _ vs h =>
    obtain ⟨d, s, hskip, hne, hs⟩ := ws_of_elements h
    have hlen := length_skip_le t
    rw [hskip] at hlen
    rw [parseValue_array M fuel hskip hne]
    exact (ih.elements hs (by rw [List.length_cons] at hfuel; omega)).map fun cs _ hcs =>
      ⟨.array hcs.1, hcs.2⟩
  | emptyObject h =>
    rw [parseValue_emptyObject M fuel (skip_of_ws h (by simp))]
    exact ⟨.object .nil, rfl⟩
  | @object t _ ms h =>
    obtain ⟨s, hskip, hs⟩ := ws_of_members h
    have hlen := length_skip_le t
    rw [hskip] at hlen
    rw [parseValue_object M fuel hskip (by decide)]
    exact (ih.members hs (by rw [List.length_cons] at hfuel; omega)).map fun cs _ hcs =>
      ⟨.object hcs.1, hcs.2⟩

/-- How long the unread text is, where a value is read. -/
theorem length_of_parseValue {M : Machine} {fuel : Nat} {s rest : Bytes} {c : CJson}
    (hfuel : 2 * s.length + 1 ≤ fuel) (h : parseValue M fuel s = .ok (some (c, rest))) :
    rest.length ≤ s.length := by
  have hends := (grammar_ends M fuel).value s hfuel
  rw [h] at hends
  exact hends.2

/-- An element, what ends it, and the elements behind a comma. -/
theorem elements_cases {t r : Bytes} {vs : List Value} (h : Elements t vs r) :
    ∃ t₁ v t₂ c t₃, Ws t t₁ ∧ ValueText t₁ v t₂ ∧ Ws t₂ (c :: t₃) ∧
      ((c = 93 ∧ vs = [v] ∧ t₃ = r) ∨ (c = 44 ∧ ∃ vs', vs = v :: vs' ∧ Elements t₃ vs' r)) := by
  cases h with
  | last hws hv hend => exact ⟨_, _, _, _, _, hws, hv, hend, .inl ⟨rfl, rfl, rfl⟩⟩
  | more hws hv hend hvs => exact ⟨_, _, _, _, _, hws, hv, hend, .inr ⟨rfl, _, rfl, hvs⟩⟩

/-- A member, what ends it, and the members behind a comma. -/
theorem members_cases {t r : Bytes} {ms : List (Bytes × Value)} (h : Members t ms r) :
    ∃ m t₁ c t₂, MemberText t m t₁ ∧ Ws t₁ (c :: t₂) ∧
      ((c = 125 ∧ ms = [m] ∧ t₂ = r) ∨ (c = 44 ∧ ∃ ms', ms = m :: ms' ∧ Members t₂ ms' r)) := by
  cases h with
  | last hm hend => exact ⟨_, _, _, _, hm, hend, .inl ⟨rfl, rfl, rfl⟩⟩
  | more hm hend hms => exact ⟨_, _, _, _, hm, hend, .inr ⟨rfl, _, rfl, hms⟩⟩

theorem parseElements_conforms {M : Machine} {fuel : Nat} (ih : GrammarConforms M fuel)
    {t r : Bytes} {vs : List Value} (h : Elements t vs r) (hfuel : 2 * t.length + 2 ≤ fuel + 1) :
    Accepts (ReadsElements M) vs r (parseElements M (fuel + 1) t) := by
  obtain ⟨t₁, v, t₂, c, t₃, hws, hv, hend, hmore⟩ := elements_cases h
  have hstops : Stops (c :: t₃) ∧ 32 < c := by
    rcases hmore with ⟨rfl, -, -⟩ | ⟨rfl, -⟩ <;> simp [Stops, isDigit]
  have hlen := length_skip_le t
  obtain ⟨b, s, rfl, hb, -⟩ := head_of_valueText hv
  rw [parseElements]
  rw [skip_of_ws hws (by simpa using hb)] at hlen ⊢
  refine (ih.value hv (stops_of_ws hend hstops.1) (by omega)).bind False.elim ?_
  rintro x t₂ hparse ⟨hx, rfl⟩
  have hrest := length_of_parseValue (by omega) hparse
  have hskip := length_skip_le t₂
  dsimp only
  rw [skip_of_ws hend (by simpa using hstops.2)] at hskip ⊢
  rw [List.length_cons] at hskip
  rcases hmore with ⟨rfl, rfl, rfl⟩ | ⟨rfl, vs, rfl, hvs⟩
  · exact ⟨.cons hx .nil, rfl⟩
  · exact (ih.elements hvs (by omega)).map fun cs _ hcs => ⟨.cons hx hcs.1, hcs.2⟩

theorem ok_bind {α β : Type} (x : α) (k : α → Except Fault β) : (Except.ok x >>= k) = k x := rfl

theorem parseMembers_conforms {M : Machine} {fuel : Nat} (ih : GrammarConforms M fuel)
    {t r : Bytes} {ms : List (Bytes × Value)} (h : Members t ms r)
    (hfuel : 2 * t.length + 2 ≤ fuel + 1) :
    Accepts (ReadsMembers M) ms r (parseMembers M (fuel + 1) t) := by
  obtain ⟨m, t₁, c, t₂, hm, hend, hmore⟩ := members_cases h
  have hstops : Stops (c :: t₂) ∧ 32 < c := by
    rcases hmore with ⟨rfl, -, -⟩ | ⟨rfl, -⟩ <;> simp [Stops, isDigit]
  cases hm with
  | @mk _ u₁ u₂ u₃ u₄ _ s v hws hname hcolon hblank hv =>
    have hlen := length_skip_le t
    obtain ⟨name, hbytes, hparse⟩ := parseString_of_stringText hname
    obtain ⟨b, s', rfl, hb, -⟩ := head_of_valueText hv
    have hlen₁ := parseString_ends (34 :: u₁)
    have hlen₂ := length_skip_le u₂
    have hlen₃ := length_skip_le u₃
    rw [hparse] at hlen₁
    rw [parseMembers]
    rw [skip_of_ws hws (by simp)] at hlen ⊢
    rw [skip_of_ws hcolon (by simp)] at hlen₂
    rw [skip_of_ws hblank (by simpa using hb)] at hlen₃
    rw [List.length_cons] at hlen₂
    have hlen₁' := hlen₁.2
    rw [hparse, ok_bind]
    dsimp only
    rw [skip_of_ws hcolon (by simp)]
    dsimp only
    rw [if_neg (by simp), skip_of_ws hblank (by simpa using hb)]
    refine (ih.value hv (stops_of_ws hend hstops.1) (by omega)).bind False.elim ?_
    rintro x t₁ hvalue ⟨hx, rfl⟩
    have hrest := length_of_parseValue (by omega) hvalue
    have hskip := length_skip_le t₁
    dsimp only
    rw [skip_of_ws hend (by simpa using hstops.2)] at hskip ⊢
    rw [List.length_cons] at hskip
    rcases hmore with ⟨rfl, rfl, rfl⟩ | ⟨rfl, ms, rfl, hms⟩
    · exact ⟨.cons hbytes hx .nil, rfl⟩
    · exact (ih.members hms (by omega)).map fun cs _ hcs =>
        ⟨.cons hbytes hx hcs.1, hcs.2⟩

/-- By induction on the fuel. -/
theorem grammar_conforms (M : Machine) (fuel : Nat) : GrammarConforms M fuel := by
  induction fuel with
  | zero =>
    exact ⟨fun _ _ hfuel => by omega, fun _ hfuel => by omega, fun _ hfuel => by omega⟩
  | succ fuel ih =>
    exact ⟨parseValue_conforms ih, parseElements_conforms ih, parseMembers_conforms ih⟩

theorem stops_nil : Stops [] := nofun

/-- A text of the grammar is read to its terminator, strict or not, or an exponent is
in the way. -/
theorem parse_of_denotes (M : Machine) {value : CStr} {v : Value} (h : Denotes value.toBytes v) :
    (tretapCJsonParseWithOpts M value true = .error .intOverflow ∧
        tretapCJsonParse M value = .error .intOverflow) ∨
      ∃ c, Reads M v c ∧ tretapCJsonParseWithOpts M value true = .ok (some (c, [])) ∧
        tretapCJsonParse M value = .ok (some c) := by
  obtain ⟨-, t, r, hws, hv, hend⟩ := h
  obtain ⟨b, s, rfl, hb, -⟩ := head_of_valueText hv
  have hlen := length_skip_le value.toBytes
  have hskip := skip_of_ws hws (by simpa using hb)
  rw [hskip] at hlen
  have hvalue := (grammar_conforms M (2 * value.toBytes.length + 2)).value hv
    (stops_of_ws hend stops_nil) (by omega)
  unfold tretapCJsonParseWithOpts tretapCJsonParse
  rw [hskip]
  cases hparse : parseValue M (2 * value.toBytes.length + 2) (b :: s) with
  | error f =>
    rw [hparse] at hvalue
    obtain rfl : f = .intOverflow := hvalue
    exact .inl ⟨rfl, rfl⟩
  | ok o =>
    rw [hparse] at hvalue
    cases o with
    | none => exact absurd hvalue id
    | some x =>
      obtain ⟨hx, hr⟩ : Reads M v x.1 ∧ x.2 = r := hvalue
      have hdone : skip x.2 = [] := by rw [hr, skip_of_ws hend (by simp)]
      refine .inr ⟨x.1, hx, ?_, rfl⟩
      show Except.ok (if skip x.2 = [] then some (x.1, []) else none) = _
      rw [if_pos hdone]

/-- A machine whose powers of ten are the nearest doubles. -/
def nearestMachine : Machine := ⟨fun _ => 0, fun _ => 0, fun k => Double.round (10 ^ k), 0⟩

/-- A record with white space and an escape. -/
def escapedRecord : Bytes :=
  bytes " \x7b\"Name\" : \"\\u0077ww\",\n\t\"RecordId\":7 \x7d\r\n"

/-- The object it denotes. -/
def plainRecord : Json.Object :=
  [(bytes "Name", .string (bytes "www")), (bytes "RecordId", .number 7)]

theorem denotes_escapedRecord :
    Denotes (cStr escapedRecord).toBytes (.object plainRecord.toMembers) := by
  have htext : (cStr escapedRecord).toBytes = escapedRecord := by decide +kernel
  have hread : Json.read escapedRecord = some plainRecord := by decide +kernel
  have hutf : Utf8 escapedRecord := utf8_of_ascii (by decide +kernel)
  exact htext ▸ denotes_of_read hutf hread

end DdnsCloudTencent
