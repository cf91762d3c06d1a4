import DdnsCloudTencent.Lib.Binary64
import DdnsCloudTencent.Lib.ByteString
import Mathlib.Algebra.Order.Field.Power
import Mathlib.Tactic.Linarith
import Mathlib.Tactic.FieldSimp

/-!
# Doubles compared and printed

- comparisons and `floor` of a `double`; a NaN compares false;
- `round_intCast`: integers below 2^53 are representable, as the naturals are;
- `printfD`, `printfF`, `printfE`: the conversions `%d`, `%.<p>f` and `%e`. The
  digits are those of the exact value rounded to the place, ties to even;
- `IsDouble`: a value that a `double` has. `length_printfE_le` needs it: the
  exponent of a double has three digits at most.
-/

namespace Cxx

namespace Double

def neg : Double → Double
  | .finite q => .finite (-q)
  | .inf s => .inf (!s)
  | .nan => .nan

/-- `a - b`. -/
def sub (a b : Double) : Double := a.add b.neg

/-- `fabs`. -/
def abs : Double → Double
  | .finite q => .finite |q|
  | .inf _ => .inf false
  | .nan => .nan

def floor : Double → Double
  | .finite q => .finite q.floor
  | d => d

/-- `a < b`. -/
def lt : Double → Double → Bool
  | .finite a, .finite b => a < b
  | .finite _, .inf s => !s
  | .inf s, .finite _ => s
  | .inf s, .inf t => s && !t
  | _, _ => false

/-- `a <= b`. -/
def le : Double → Double → Bool
  | .finite a, .finite b => a ≤ b
  | .finite _, .inf s => !s
  | .inf s, .finite _ => s
  | .inf s, .inf t => s || !t
  | _, _ => false

/-- An integer below 2^53 is a double. -/
theorem round_intCast {k : ℤ} (h : k.natAbs < 2 ^ 53) : round (k : ℚ) = .finite k := by
  unfold round
  split
  · next h0 => rw [h0]
  · have habs : |(k : ℚ)| = ((k.natAbs : ℕ) : ℚ) := by rw [Nat.cast_natAbs, Int.cast_abs]
    have hexp : exponent (k : ℚ) ≤ 52 := by
      have hsame : exponent (k : ℚ) = exponent ((k.natAbs : ℕ) : ℚ) := by
        unfold exponent
        rw [Rat.num_intCast, Rat.den_intCast, Rat.num_natCast, Rat.den_natCast, Int.natAbs_natCast,
          habs, Nat.abs_cast]
      rw [hsame]
      exact exponent_natCast_le h
    obtain ⟨m, hm⟩ : ∃ m : Nat, lastPlace (k : ℚ) = -(m : ℤ) :=
      ⟨(-lastPlace (k : ℚ)).toNat, by unfold lastPlace; omega⟩
    -- scaled by 2^m the number is an integer, which rounding keeps
    have hpos : (0 : ℚ) < ((2 ^ m : ℕ) : ℚ) := by positivity
    have hint : (k : ℚ) / pow2 (lastPlace k) = ((k * 2 ^ m : ℤ) : ℚ) := by
      rw [hm, pow2_neg, div_inv_eq_mul]
      push_cast
      ring
    have hr : ((roundEven ((k : ℚ) / pow2 (lastPlace k)) : ℤ) : ℚ) * pow2 (lastPlace k) = k := by
      rw [hint, roundEven_intCast, hm, pow2_neg]
      push_cast
      field_simp
    have hsmall : ¬ pow2 1024 ≤ |(k : ℚ)| := by
      rw [habs, not_le]
      exact natCast_lt_pow2 h 1024 (by decide)
    simp only [hr]
    rw [if_neg hsmall]

/-- A value of the type. -/
def IsDouble : Double → Prop
  | .finite q => round q = .finite q
  | _ => True

end Double

/-! ## Conversions -/

/-- `%d`. -/
def printfD (k : ℤ) : Bytes := if k < 0 then 45 :: toDecimal k.natAbs else toDecimal k.natAbs

/-- The sign of a number that is printed. -/
def printfSign (q : ℚ) : Bytes := if q < 0 then [45] else []

/-- A numeral with zeros in front, up to a width. -/
def padded (width n : Nat) : Bytes :=
  List.replicate (width - (toDecimal n).length) 48 ++ toDecimal n

/-- A number of `10^p` parts of one, with a point where there are any. -/
def pointed (p n : Nat) : Bytes :=
  toDecimal (n / 10 ^ p) ++ if p = 0 then [] else 46 :: padded p (n % 10 ^ p)

/-- The decimal exponent of a nonzero rational: `10^e ≤ |q| < 10^(e+1)`. -/
def decimalExponent (q : ℚ) : ℤ :=
  let e : ℤ := (Nat.log 10 q.num.natAbs : ℤ) - Nat.log 10 q.den
  if |q| < 10 ^ e then e - 1 else e

/-- The digits and the exponent of `%e`: seven digits, which rounding may carry into
an eighth. -/
def scientific (q : ℚ) : Nat × ℤ :=
  if q = 0 then (0, 0)
  else
    let e := decimalExponent q
    let n := (Double.roundEven (|q| / 10 ^ e * 10 ^ 6)).toNat
    if n = 10 ^ 7 then (10 ^ 6, e + 1) else (n, e)

/-- `inf` and `nan`, as every conversion prints them. -/
def printfSpecial : Double → Bytes
  | .inf s => if s then bytes "-inf" else bytes "inf"
  | _ => bytes "nan"

/-- `%.<p>f`. -/
def printfF (p : Nat) : Double → Bytes
  | .finite q => printfSign q ++ pointed p (Double.roundEven (|q| * 10 ^ p)).toNat
  | d => printfSpecial d

/-- `%e`. -/
def printfE : Double → Bytes
  | .finite q =>
    let (n, e) := scientific q
    printfSign q ++ pointed 6 n ++ 101 :: (if e < 0 then 45 else 43) :: padded 2 e.natAbs
  | d => printfSpecial d

/-! ## Which bytes they write -/

/-- A digit, a sign, a point, or a letter of `e`, `inf` and `nan`. -/
def IsNumberByte (c : UInt8) : Prop := isDigit c = true ∨ c ∈ bytes "+-.aefin"

instance : DecidablePred IsNumberByte := fun c =>
  inferInstanceAs (Decidable (isDigit c = true ∨ c ∈ bytes "+-.aefin"))

theorem isNumberByte_toDecimal (n : Nat) : ∀ c ∈ toDecimal n, IsNumberByte c :=
  fun c hc => .inl (toDecimal_isDigit n c hc)

theorem padded_isDigit (width n : Nat) : ∀ c ∈ padded width n, isDigit c = true :=
  List.forall_mem_append.mpr
    ⟨fun _ hc => by rw [(List.mem_replicate.mp hc).2]; rfl, toDecimal_isDigit n⟩

theorem isNumberByte_pointed (p n : Nat) : ∀ c ∈ pointed p n, IsNumberByte c := by
  refine List.forall_mem_append.mpr ⟨isNumberByte_toDecimal _, ?_⟩
  split
  · exact nofun
  · exact List.forall_mem_cons.mpr
      ⟨.inr (by decide), fun c hc => .inl (padded_isDigit _ _ c hc)⟩

theorem isNumberByte_printfSign (q : ℚ) : ∀ c ∈ printfSign q, IsNumberByte c := by
  unfold printfSign
  split <;> decide

theorem isNumberByte_printfSpecial (d : Double) : ∀ c ∈ printfSpecial d, IsNumberByte c := by
  unfold printfSpecial
  split
  · split <;> decide
  · decide

theorem isNumberByte_printfD (k : ℤ) : ∀ c ∈ printfD k, IsNumberByte c := by
  unfold printfD
  split
  · exact List.forall_mem_cons.mpr ⟨.inr (by decide), isNumberByte_toDecimal _⟩
  · exact isNumberByte_toDecimal _

theorem isNumberByte_printfF (p : Nat) (d : Double) : ∀ c ∈ printfF p d, IsNumberByte c := by
  cases d with
  | finite q =>
    exact List.forall_mem_append.mpr ⟨isNumberByte_printfSign q, isNumberByte_pointed _ _⟩
  | inf s => exact isNumberByte_printfSpecial (.inf s)
  | nan => exact isNumberByte_printfSpecial .nan

theorem isNumberByte_printfE (d : Double) : ∀ c ∈ printfE d, IsNumberByte c := by
  cases d with
  | finite q =>
    refine List.forall_mem_append.mpr ⟨List.forall_mem_append.mpr
      ⟨isNumberByte_printfSign q, isNumberByte_pointed _ _⟩,
      List.forall_mem_cons.mpr ⟨.inr (by decide), List.forall_mem_cons.mpr ⟨?_, ?_⟩⟩⟩
    · split <;> exact .inr (by decide)
    · exact fun c hc => .inl (padded_isDigit _ _ c hc)
  | inf s => exact isNumberByte_printfSpecial (.inf s)
  | nan => exact isNumberByte_printfSpecial .nan

/-! ## How long they get -/

theorem length_numeral_le_of_lt {b n k : Nat} (hb : 1 < b) (hk : 0 < k) (h : n < b ^ k) :
    (numeral b n).length ≤ k := by
  unfold numeral
  split
  · exact hk
  · rw [List.length_map, List.length_reverse]
    exact (Nat.digits_length_le_iff hb n).mpr h

theorem length_toDecimal_le {n k : Nat} (hk : 0 < k) (h : n < 10 ^ k) :
    (toDecimal n).length ≤ k :=
  length_numeral_le_of_lt (by norm_num) hk h

theorem length_padded_le {width n : Nat} (hw : 0 < width) (h : n < 10 ^ width) :
    (padded width n).length = width := by
  have hle := length_toDecimal_le hw h
  rw [padded, List.length_append, List.length_replicate]
  omega

theorem length_printfSign_le (q : ℚ) : (printfSign q).length ≤ 1 := by
  unfold printfSign
  split <;> decide

theorem length_printfD_le {k : ℤ} (h : k.natAbs < 10 ^ 10) : (printfD k).length ≤ 11 := by
  have hle := length_toDecimal_le (by decide) h
  unfold printfD
  split
  · rw [List.length_cons]
    omega
  · omega

namespace Double

/-- Rounding does not pass an integer. -/
theorem roundEven_le {x : ℚ} {n : ℤ} (h : x ≤ n) : roundEven x ≤ n := by
  have hfloor : (x.floor : ℚ) ≤ x := Rat.floor_le x
  have hle : x.floor ≤ n := by exact_mod_cast hfloor.trans h
  unfold roundEven
  dsimp only
  rcases hle.lt_or_eq with hlt | heq
  · split_ifs <;> omega
  · have hzero : x - (x.floor : ℚ) < 1 / 2 := by
      rw [heq]
      linarith
    rw [if_pos hzero]
    exact hle

theorem pow2_eq (e : ℤ) : pow2 e = 2 ^ e := by
  cases e with
  | ofNat n => simp [pow2]
  | negSucc n => simp [pow2, zpow_negSucc]

/-- The range of the finite doubles. -/
theorem abs_lt_of_isDouble {q : ℚ} (h : IsDouble (.finite q)) : |q| < 2 ^ (1024 : ℤ) := by
  change round q = .finite q at h
  unfold round at h
  split at h
  · next hq =>
    rw [hq, abs_zero]
    positivity
  · dsimp only at h
    split at h
    · cases h
    · next hbig =>
      rw [Double.finite.injEq] at h
      rwa [h, pow2_eq, not_le] at hbig

/-- The smallest of them. -/
theorem le_abs_of_isDouble {q : ℚ} (h : IsDouble (.finite q)) (hq : q ≠ 0) :
    2 ^ (-1074 : ℤ) ≤ |q| := by
  change round q = .finite q at h
  unfold round at h
  rw [if_neg hq] at h
  dsimp only at h
  split at h
  · cases h
  · rw [Double.finite.injEq] at h
    -- an integer number of last places, and not none
    have hplace : (2 : ℚ) ^ (-1074 : ℤ) ≤ pow2 (lastPlace q) := by
      rw [pow2_eq]
      exact zpow_le_zpow_right₀ (by norm_num) (le_max_right _ _)
    have hpos : (0 : ℚ) < pow2 (lastPlace q) := lt_of_lt_of_le (by positivity) hplace
    have hne : roundEven (q / pow2 (lastPlace q)) ≠ 0 := by
      intro h0
      rw [h0, Int.cast_zero, zero_mul] at h
      exact hq h.symm
    have hone : (1 : ℚ) ≤ |(roundEven (q / pow2 (lastPlace q)) : ℚ)| := by
      exact_mod_cast Int.one_le_abs hne
    calc (2 : ℚ) ^ (-1074 : ℤ) ≤ 1 * pow2 (lastPlace q) := by rwa [one_mul]
      _ ≤ |(roundEven (q / pow2 (lastPlace q)) : ℚ)| * pow2 (lastPlace q) :=
        mul_le_mul_of_nonneg_right hone hpos.le
      _ = |q| := by rw [← abs_of_pos hpos, ← abs_mul, abs_of_pos hpos, h]

end Double

theorem decimalExponent_spec {q : ℚ} (hq : q ≠ 0) :
    (10 : ℚ) ^ decimalExponent q ≤ |q| ∧ |q| < 10 ^ (decimalExponent q + 1) := by
  have hnum : q.num.natAbs ≠ 0 := by simpa using hq
  have habs : |q| = (q.num.natAbs : ℚ) / q.den := by
    have hden : |(q.den : ℚ)| = q.den := abs_of_pos (by exact_mod_cast q.den_pos)
    rw [Nat.cast_natAbs, Int.cast_abs, ← hden, ← abs_div, Rat.num_div_den]
  have hpos : (0 : ℚ) < q.den := by exact_mod_cast q.den_pos
  -- the logarithms of numerator and denominator give the exponent up to one
  have hlow : (10 : ℚ) ^ ((Nat.log 10 q.num.natAbs : ℤ) - Nat.log 10 q.den - 1) ≤ |q| := by
    have hn : ((10 ^ Nat.log 10 q.num.natAbs : ℕ) : ℚ) ≤ q.num.natAbs := by
      exact_mod_cast Nat.pow_log_le_self 10 hnum
    have hd : (q.den : ℚ) ≤ ((10 ^ (Nat.log 10 q.den + 1) : ℕ) : ℚ) := by
      exact_mod_cast (Nat.lt_pow_succ_log_self (by decide) q.den).le
    have hsplit : (10 : ℚ) ^ ((Nat.log 10 q.num.natAbs : ℤ) - Nat.log 10 q.den - 1) =
        ((10 ^ Nat.log 10 q.num.natAbs : ℕ) : ℚ) / ((10 ^ (Nat.log 10 q.den + 1) : ℕ) : ℚ) := by
      rw [sub_sub, zpow_sub₀ (by norm_num)]
      push_cast
      norm_cast
    rw [hsplit, habs]
    exact div_le_div₀ (by positivity) hn hpos hd
  have hhigh : |q| < 10 ^ ((Nat.log 10 q.num.natAbs : ℤ) - Nat.log 10 q.den + 1) := by
    have hn : (q.num.natAbs : ℚ) < ((10 ^ (Nat.log 10 q.num.natAbs + 1) : ℕ) : ℚ) := by
      exact_mod_cast Nat.lt_pow_succ_log_self (by decide) q.num.natAbs
    have hd : ((10 ^ Nat.log 10 q.den : ℕ) : ℚ) ≤ q.den := by
      exact_mod_cast Nat.pow_log_le_self 10 q.den_ne_zero
    have hsplit : (10 : ℚ) ^ ((Nat.log 10 q.num.natAbs : ℤ) - Nat.log 10 q.den + 1) =
        ((10 ^ (Nat.log 10 q.num.natAbs + 1) : ℕ) : ℚ) / ((10 ^ Nat.log 10 q.den : ℕ) : ℚ) := by
      rw [sub_add_eq_add_sub, zpow_sub₀ (by norm_num)]
      push_cast
      norm_cast
    rw [hsplit, habs]
    exact div_lt_div₀ hn hd (by positivity) (by positivity)
  unfold decimalExponent
  dsimp only
  split
  · next h => exact ⟨hlow, by rwa [sub_add_cancel]⟩
  · next h => exact ⟨not_lt.mp h, hhigh⟩

/-- One digit before the point, and an exponent of three digits. -/
theorem scientific_lt {q : ℚ} (h : Double.IsDouble (.finite q)) :
    (scientific q).1 < 10 ^ 7 ∧ (scientific q).2.natAbs < 10 ^ 3 := by
  unfold scientific
  split
  · decide
  · next hq =>
    obtain ⟨hlow, hhigh⟩ := decimalExponent_spec hq
    have hpos : (0 : ℚ) < 10 ^ decimalExponent q := by positivity
    have hpowers : 2 ^ 1024 < 10 ^ 309 ∧ 2 ^ 1074 < 10 ^ 324 := by decide +kernel
    have hmax : decimalExponent q < 309 := by
      have hrange : (2 : ℚ) ^ (1024 : ℤ) < 10 ^ (309 : ℤ) := by
        exact_mod_cast hpowers.1
      have hlt : (10 : ℚ) ^ decimalExponent q < 10 ^ (309 : ℤ) :=
        hlow.trans_lt ((Double.abs_lt_of_isDouble h).trans hrange)
      exact (zpow_lt_zpow_iff_right₀ (by norm_num)).mp hlt
    have hmin : -324 < decimalExponent q + 1 := by
      have hrange : (10 : ℚ) ^ (-324 : ℤ) < 2 ^ (-1074 : ℤ) := by
        rw [zpow_neg, zpow_neg, inv_lt_inv₀ (by positivity) (by positivity)]
        exact_mod_cast hpowers.2
      have hlt : (10 : ℚ) ^ (-324 : ℤ) < 10 ^ (decimalExponent q + 1) :=
        hrange.trans_le ((Double.le_abs_of_isDouble h hq).trans hhigh.le)
      exact (zpow_lt_zpow_iff_right₀ (by norm_num)).mp hlt
    have hdigits : Double.roundEven (|q| / 10 ^ decimalExponent q * 10 ^ 6) ≤ (10 ^ 7 : ℤ) := by
      refine Double.roundEven_le ?_
      have hten : |q| / 10 ^ decimalExponent q ≤ 10 := by
        rw [div_le_iff₀ hpos]
        rw [zpow_add₀ (by norm_num), zpow_one] at hhigh
        linarith
      push_cast
      linarith
    dsimp only
    split
    · exact ⟨by norm_num, by dsimp only; omega⟩
    · next hne => exact ⟨by dsimp only; omega, by dsimp only; omega⟩

theorem length_pointed_le {p n k : Nat} (hk : 0 < k) (h : n < 10 ^ (k + p)) :
    (pointed p n).length ≤ k + p + 1 := by
  have hint : n / 10 ^ p < 10 ^ k := Nat.div_lt_of_lt_mul (by rwa [← pow_add, Nat.add_comm])
  have hle := length_toDecimal_le hk hint
  unfold pointed
  rw [List.length_append]
  split
  · rw [List.length_nil]
    omega
  · next hp =>
    have hfrac := length_padded_le (Nat.pos_of_ne_zero hp)
      (Nat.mod_lt n (by positivity : 0 < 10 ^ p))
    rw [List.length_cons, hfrac]
    omega

theorem length_printfSpecial_le (d : Double) : (printfSpecial d).length ≤ 4 := by
  unfold printfSpecial
  split
  · split <;> decide
  · decide

/-- A number below `10^k` in `%.<p>f`. -/
theorem length_printfF_le {p k : Nat} (hk : 1 < k) {d : Double}
    (h : ∀ q, d = .finite q → |q| * 10 ^ p ≤ ((10 ^ (k + p) - 1 : ℤ) : ℚ)) :
    (printfF p d).length ≤ k + p + 2 := by
  cases d with
  | finite q =>
    have hround := Double.roundEven_le (h q rfl)
    have hsign := length_printfSign_le q
    have hn : (Double.roundEven (|q| * 10 ^ p)).toNat < 10 ^ (k + p) := by
      have hpow : (0 : ℤ) < 10 ^ (k + p) := by positivity
      zify
      omega
    have hle := length_pointed_le (Nat.zero_lt_of_lt hk) hn
    show (printfSign q ++ _).length ≤ _
    rw [List.length_append]
    omega
  | inf s =>
    have := length_printfSpecial_le (.inf s)
    show (printfSpecial (.inf s)).length ≤ _
    omega
  | nan =>
    have := length_printfSpecial_le .nan
    show (printfSpecial .nan).length ≤ _
    omega

theorem length_printfE_le {d : Double} (h : d.IsDouble) : (printfE d).length ≤ 15 := by
  cases d with
  | finite q =>
    obtain ⟨hn, he⟩ := scientific_lt h
    have hsign := length_printfSign_le q
    have hdigits := length_pointed_le (p := 6) (k := 1) (by decide) hn
    have hexp : (padded 2 (scientific q).2.natAbs).length ≤ 3 := by
      have hle := length_toDecimal_le (by decide) he
      rw [padded, List.length_append, List.length_replicate]
      omega
    show (printfSign q ++ pointed 6 (scientific q).1 ++
      101 :: _ :: padded 2 (scientific q).2.natAbs).length ≤ 15
    rw [List.length_append, List.length_append, List.length_cons, List.length_cons]
    omega
  | inf s => exact (length_printfSpecial_le (.inf s)).trans (by decide)
  | nan => exact (length_printfSpecial_le .nan).trans (by decide)

end Cxx
