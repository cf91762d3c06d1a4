import Mathlib.Data.List.DropRight
import Mathlib.Data.Nat.Digits.Lemmas

/-!
# Byte strings of a C++ program

- `Bytes`: the contents of a `std::string`, any bytes at all;
- `CStr`: what a reader of a `char *` sees, the bytes before the terminator.
  The subtype carries the fact that no NUL is among them, and `cStr` is the
  only way from one to the other (`c_str()`, `data()`);
- `numeral`: a number written in base 10 (`toDecimal`, `std::to_string`) or 16
  (`%x`), with its inverse `ofNumeral` and the reader `numberAfter` of a number
  in a text.
-/

namespace Cxx

/-- The contents of a `std::string`. -/
abbrev Bytes := List UInt8

/-- A statement about all bytes of a string is decided along the string, not by
trying every byte. -/
instance (priority := 2000) decidableForallMem (s : Bytes) (p : UInt8 → Prop) [DecidablePred p] :
    Decidable (∀ c ∈ s, p c) := List.decidableBAll p s

/-- The bytes of a string literal. -/
def bytes (s : String) : Bytes := s.toUTF8.data.toList

theorem bytes_append (s t : String) : bytes (s ++ t) = bytes s ++ bytes t := by
  simp [bytes]

/-- The contents of a NUL-terminated array. -/
structure CStr where
  toBytes : Bytes
  noNul : 0 ∉ toBytes
deriving DecidableEq

namespace CStr

@[ext] theorem ext {s t : CStr} (h : s.toBytes = t.toBytes) : s = t := by
  cases s
  cases t
  cases h
  rfl

end CStr

/-- `c_str()` and `data()` as a C function reads them: up to the first NUL. -/
def cStr (s : Bytes) : CStr where
  toBytes := s.takeWhile (· != 0)
  noNul h := by simpa using List.mem_takeWhile_imp h

theorem cStr_toBytes_of_noNul {s : Bytes} (h : 0 ∉ s) : (cStr s).toBytes = s := by
  refine List.takeWhile_eq_self_iff.mpr fun c hc => ?_
  have hne : c ≠ 0 := fun h0 => h (h0 ▸ hc)
  simpa using hne

@[simp] theorem cStr_toBytes (s : CStr) : cStr s.toBytes = s :=
  CStr.ext (cStr_toBytes_of_noNul s.noNul)

theorem noNul_append {s t : Bytes} (hs : 0 ∉ s) (ht : 0 ∉ t) : 0 ∉ s ++ t :=
  fun h => (List.mem_append.mp h).elim hs ht

/-! ## Numerals -/

/-- The digit characters `0-9a-f`. -/
def digitChar (d : Nat) : UInt8 := if d < 10 then (48 + d).toUInt8 else (87 + d).toUInt8

/-- The value of a digit character. -/
def digitValue (c : UInt8) : Nat := if c.toNat < 58 then c.toNat - 48 else c.toNat - 87

theorem digitChar_ne_zero {d : Nat} (h : d < 16) : digitChar d ≠ 0 := by
  interval_cases d <;> decide

theorem digitValue_digitChar {d : Nat} (h : d < 16) : digitValue (digitChar d) = d := by
  interval_cases d <;> rfl

/-- The numeral of `n` in base `b`, most significant digit first, no leading zero. -/
def numeral (b n : Nat) : Bytes :=
  if n = 0 then bytes "0" else (Nat.digits b n).reverse.map digitChar

/-- The number a numeral denotes. -/
def ofNumeral (b : Nat) (ds : Bytes) : Nat := Nat.ofDigits b (ds.map digitValue).reverse

theorem numeral_ne_nil (b n : Nat) : numeral b n ≠ [] := by
  unfold numeral
  split
  · decide
  · next h => simpa [Nat.digits_eq_nil_iff_eq_zero] using h

theorem mem_numeral {b n : Nat} (hb : 1 < b) {c : UInt8} (hc : c ∈ numeral b n) :
    ∃ d < b, c = digitChar d := by
  unfold numeral at hc
  split at hc
  · exact ⟨0, by omega, by simpa [show bytes "0" = [digitChar 0] from rfl] using hc⟩
  · obtain ⟨d, hd, rfl⟩ := List.mem_map.mp hc
    exact ⟨d, Nat.digits_lt_base hb (List.mem_reverse.mp hd), rfl⟩

/-- Reading back a numeral gives the number. -/
theorem ofNumeral_numeral {b : Nat} (hb : 1 < b) (hb' : b ≤ 16) (n : Nat) :
    ofNumeral b (numeral b n) = n := by
  unfold numeral ofNumeral
  split
  · next h => simp [h, show bytes "0" = [48] from rfl, digitValue]
  · have hvalues : ((Nat.digits b n).reverse.map digitChar).map digitValue
        = (Nat.digits b n).reverse := by
      rw [List.map_map]
      refine (List.map_congr_left fun d hd => ?_).trans (List.map_id _)
      have hlt := Nat.digits_lt_base hb (List.mem_reverse.mp hd)
      exact digitValue_digitChar (by omega)
    rw [hvalues, List.reverse_reverse, Nat.ofDigits_digits]

theorem ofNumeral_snoc (ds : Bytes) (c : UInt8) :
    ofNumeral 10 (ds ++ [c]) = ofNumeral 10 ds * 10 + digitValue c := by
  simp only [ofNumeral, List.map_append, List.map_cons, List.map_nil, List.reverse_append,
    List.reverse_cons, List.reverse_nil, List.nil_append, List.cons_append, Nat.ofDigits_cons]
  ring

/-- `std::to_string` of an unsigned integer. -/
def toDecimal (n : Nat) : Bytes := numeral 10 n

theorem toDecimal_digit {d : Nat} (hd : d < 10) : toDecimal d = [digitChar d] := by
  interval_cases d <;> decide

theorem toDecimal_snoc {n d : Nat} (hn : n ≠ 0) (hd : d < 10) :
    toDecimal (n * 10 + d) = toDecimal n ++ [digitChar d] := by
  have hdigits : Nat.digits 10 (n * 10 + d) = d :: Nat.digits 10 n := by
    rw [Nat.add_comm, Nat.mul_comm]
    exact Nat.digits_add 10 (by decide) d n hd (.inr hn)
  have hne : n * 10 + d ≠ 0 := by omega
  unfold toDecimal numeral
  rw [if_neg hn, if_neg hne, hdigits, List.reverse_cons, List.map_append]
  rfl

/-- Lean's own printer writes the same digits. -/
theorem toDecimal_eq_repr (n : Nat) : toDecimal n = bytes n.repr := by
  induction n using Nat.strongRecOn with
  | ind n ih =>
    rcases Nat.lt_or_ge n 10 with h | h
    · interval_cases n <;> decide
    · have hlast : toDecimal (n % 10) = [digitChar (n % 10)] := toDecimal_digit (by omega)
      calc toDecimal n = toDecimal (n / 10 * 10 + n % 10) := by rw [Nat.div_add_mod']
        _ = toDecimal (n / 10) ++ toDecimal (n % 10) := by
          rw [toDecimal_snoc (by omega) (by omega), hlast]
        _ = bytes ((n / 10).repr ++ (n % 10).repr) := by
          rw [ih (n / 10) (by omega), ih (n % 10) (by omega), bytes_append]
        _ = bytes n.repr := by rw [Nat.repr_eq_repr_append_repr h]

/-- `isdigit` in the C locale. -/
def isDigit (c : UInt8) : Bool := 48 ≤ c && c ≤ 57

theorem digitValue_of_isDigit {c : UInt8} (h : isDigit c = true) :
    digitValue c = c.toNat - 48 := by
  simp only [isDigit, Bool.and_eq_true, decide_eq_true_eq, UInt8.le_iff_toNat_le] at h
  have h57 : (57 : UInt8).toNat = 57 := rfl
  rw [digitValue, if_pos (by omega)]

theorem toDecimal_isDigit (n : Nat) : ∀ c ∈ toDecimal n, isDigit c = true := by
  intro c hc
  obtain ⟨d, hd, rfl⟩ := mem_numeral (by decide) hc
  interval_cases d <;> rfl

theorem takeWhile_toDecimal (n : Nat) {rest : Bytes} (h : ∀ c ∈ rest.head?, isDigit c = false) :
    (toDecimal n ++ rest).takeWhile isDigit = toDecimal n := by
  rw [List.takeWhile_append_of_pos (toDecimal_isDigit n)]
  cases rest with
  | nil => simp
  | cons c t => simp [h c rfl]

theorem dropWhile_toDecimal (n : Nat) {rest : Bytes} (h : ∀ c ∈ rest.head?, isDigit c = false) :
    (toDecimal n ++ rest).dropWhile isDigit = rest := by
  rw [List.dropWhile_append_of_pos (toDecimal_isDigit n)]
  cases rest with
  | nil => rfl
  | cons c t => simp [h c rfl]

theorem noNul_toDecimal (n : Nat) : 0 ∉ toDecimal n :=
  fun h0 => absurd (toDecimal_isDigit n 0 h0) (by decide)

/-- `isspace` in the C locale. -/
def isSpace (c : UInt8) : Bool := c == 32 || (9 ≤ c && c ≤ 13)

/-- `isxdigit`. -/
def isHexDigit (c : UInt8) : Bool := isDigit c || (97 ≤ c && c ≤ 102) || (65 ≤ c && c ≤ 70)

/-- `strtol(s, NULL, 16)` on a text too short to overflow: white space, a sign
and a `0x` before the digits are skipped, and the first non-digit ends it. -/
def strtol16 (s : Bytes) : Int :=
  let s := s.dropWhile isSpace
  let (sign, s) : Int × Bytes := match s with
    | 45 :: t => (-1, t)
    | 43 :: t => (1, t)
    | t => (1, t)
  let s := match s with
    | 48 :: x :: d :: t => if (x = 120 ∨ x = 88) ∧ isHexDigit d then d :: t else s
    | s => s
  let lower := (s.takeWhile isHexDigit).map fun c => if 65 ≤ c ∧ c ≤ 70 then c + 32 else c
  sign * ofNumeral 16 lower

/-- `strtol` reads lower-case digits with nothing in front. -/
theorem strtol16_of_digits {s : Bytes} (h : ∀ c ∈ s, ∃ d < 16, c = digitChar d) :
    strtol16 s = ofNumeral 16 s := by
  have hchar : ∀ c ∈ s, isSpace c = false ∧ c ≠ 45 ∧ c ≠ 43 ∧ c ≠ 120 ∧ c ≠ 88 ∧
      isHexDigit c = true ∧ ¬ (65 ≤ c ∧ c ≤ 70) := by
    intro c hc
    obtain ⟨d, hd, rfl⟩ := h c hc
    interval_cases d <;> decide
  have hspace : s.dropWhile isSpace = s := by
    cases s with
    | nil => rfl
    | cons c t =>
      rw [List.dropWhile_cons, (hchar c List.mem_cons_self).1, if_neg Bool.false_ne_true]
  have hdigits : s.takeWhile isHexDigit = s :=
    List.takeWhile_eq_self_iff.mpr fun c hc => (hchar c hc).2.2.2.2.2.1
  have hlower : (s.map fun c => if 65 ≤ c ∧ c ≤ 70 then c + 32 else c) = s :=
    (List.map_congr_left fun c hc => if_neg (hchar c hc).2.2.2.2.2.2).trans (List.map_id s)
  unfold strtol16
  simp only [hspace]
  split
  · exact absurd rfl (hchar 45 List.mem_cons_self).2.1
  · exact absurd rfl (hchar 43 List.mem_cons_self).2.2.1
  · split
    · next x d t hs =>
      -- a `0x` in front is not made of digits
      have hmem : x ∈ s := by
        rw [show s = 48 :: x :: d :: t from hs]
        simp
      obtain ⟨-, -, -, hx, hx', -⟩ := hchar x hmem
      rw [if_neg fun hc => hc.1.elim hx hx', hdigits, hlower, one_mul]
    · rw [hdigits, hlower, one_mul]

/-- `strtol` reads digits of either case with nothing in front. -/
theorem strtol16_of_hexDigits {s : Bytes} (h : ∀ c ∈ s, isHexDigit c = true) :
    strtol16 s = ofNumeral 16 (s.map fun c => if 65 ≤ c ∧ c ≤ 70 then c + 32 else c) := by
  have hspace : s.dropWhile isSpace = s := by
    cases s with
    | nil => rfl
    | cons c t =>
      refine List.dropWhile_cons_of_neg fun hc => ?_
      have hc' := h c List.mem_cons_self
      simp only [isSpace, isHexDigit, isDigit, Bool.or_eq_true, Bool.and_eq_true, beq_iff_eq,
        decide_eq_true_eq, UInt8.le_iff_toNat_le, ← UInt8.toNat_inj] at hc hc'
      simp at hc hc'
      omega
  have hdigits : s.takeWhile isHexDigit = s := List.takeWhile_eq_self_iff.mpr h
  unfold strtol16
  simp only [hspace]
  split
  · exact absurd (h 45 List.mem_cons_self) (by decide)
  · exact absurd (h 43 List.mem_cons_self) (by decide)
  · split
    · next x d t hs =>
      have hx : isHexDigit x = true := h x (by rw [show s = 48 :: x :: d :: t from hs]; simp)
      -- a `0x` in front is not made of digits
      have hne : ¬ ((x = 120 ∨ x = 88) ∧ isHexDigit d = true) := by
        rintro ⟨rfl | rfl, -⟩ <;> exact absurd hx (by decide)
      rw [if_neg hne, hdigits, one_mul]
    · rw [hdigits, one_mul]

theorem strtol16_numeral (n : Nat) : strtol16 (numeral 16 n) = n := by
  rw [strtol16_of_digits fun c hc => mem_numeral (by decide) hc,
    ofNumeral_numeral (by decide) (by decide)]

/-- The number that a text starts with. -/
def leadingDecimal (s : Bytes) : Option Nat :=
  let ds := s.takeWhile isDigit
  if ds = [] then none else some (ofNumeral 10 ds)

theorem leadingDecimal_append (n : Nat) (rest : Bytes) (h : ∀ c ∈ rest.head?, isDigit c = false) :
    leadingDecimal (toDecimal n ++ rest) = some n := by
  have hrest : rest.takeWhile isDigit = [] := by
    cases rest with
    | nil => rfl
    | cons c t => rw [List.takeWhile_cons, h c rfl, if_neg Bool.false_ne_true]
  have hdigits : (toDecimal n ++ rest).takeWhile isDigit = toDecimal n := by
    rw [List.takeWhile_append_of_pos (toDecimal_isDigit n), hrest, List.append_nil]
  have hne : toDecimal n ≠ [] := numeral_ne_nil 10 n
  simp only [leadingDecimal, hdigits, if_neg hne]
  exact congrArg some (ofNumeral_numeral (by decide) (by decide) n)

/-- The number that stands in a text right behind `head`. -/
def numberAfter (head s : Bytes) : Option Nat :=
  if head <+: s then leadingDecimal (s.drop head.length) else none

theorem numberAfter_append (head : Bytes) (n : Nat) (rest : Bytes)
    (h : ∀ c ∈ rest.head?, isDigit c = false) :
    numberAfter head (head ++ toDecimal n ++ rest) = some n := by
  rw [numberAfter, List.append_assoc, if_pos (List.prefix_append _ _), List.drop_left]
  exact leadingDecimal_append n rest h

end Cxx
