import Mathlib.Data.Rat.Floor
import Mathlib.Tactic.Ring
import Mathlib.Tactic.Positivity

/-!
# Binary64 arithmetic

A C `double` as the rational it denotes. Every operation is the exact one on
rationals followed by `Double.round`, round to nearest with ties to even, with
53 significant bits, gradual underflow and overflow to infinity.

- Zero carries no sign: no operation below observes it.
- `round_natCast`: naturals below 2^53 are representable, hence exact. This is
  the one fact about the format an integer reader relies on.
-/

namespace Cxx

/-- A `double`. -/
inductive Double where
  | finite (q : ℚ)
  | inf (neg : Bool)
  | nan
deriving DecidableEq

namespace Double

/-- `2^e` as a rational. -/
def pow2 : ℤ → ℚ
  | .ofNat n => ((2 ^ n : ℕ) : ℚ)
  | .negSucc n => ((2 ^ (n + 1) : ℕ) : ℚ)⁻¹

/-- The nearest integer, the even one at a tie. -/
def roundEven (x : ℚ) : ℤ :=
  let k := x.floor
  if x - k < 1 / 2 then k else if 1 / 2 < x - k then k + 1 else k + k % 2

/-- The binary exponent of a nonzero rational: `2^e ≤ |q| < 2^(e+1)`. -/
def exponent (q : ℚ) : ℤ :=
  let e : ℤ := (Nat.log2 q.num.natAbs : ℤ) - Nat.log2 q.den
  if |q| < pow2 e then e - 1 else e

/-- The exponent of the last place a double of this magnitude has. -/
def lastPlace (q : ℚ) : ℤ := max (exponent q - 52) (-1074)

/-- The double nearest to a rational. -/
def round (q : ℚ) : Double :=
  if q = 0 then .finite 0
  else
    let u := pow2 (lastPlace q)
    let r := (roundEven (q / u) : ℚ) * u
    if pow2 1024 ≤ |r| then .inf (decide (q < 0)) else .finite r

/-- `a * b`. -/
def mul : Double → Double → Double
  | .finite a, .finite b => round (a * b)
  | .finite a, .inf s | .inf s, .finite a =>
    if a = 0 then .nan else .inf (s != decide (a < 0))
  | .inf s, .inf t => .inf (s != t)
  | _, _ => .nan

/-- `a + b`. -/
def add : Double → Double → Double
  | .finite a, .finite b => round (a + b)
  | .finite _, .inf s | .inf s, .finite _ => .inf s
  | .inf s, .inf t => if s = t then .inf s else .nan
  | _, _ => .nan

/-- The exact double of a small natural. -/
def ofNat (n : Nat) : Double := .finite n

/-- Conversion to an integer type discards the fraction; `none` when the value
has no integer part. -/
def trunc : Double → Option ℤ
  | .finite q => some (if q < 0 then q.ceil else q.floor)
  | _ => none

/-! ## Naturals below 2^53 are exact -/

theorem pow2_neg (m : Nat) : pow2 (-(m : ℤ)) = ((2 ^ m : ℕ) : ℚ)⁻¹ := by
  cases m with
  | zero => simp [pow2]
  | succ m => rfl

theorem roundEven_intCast (k : ℤ) : roundEven (k : ℚ) = k := by
  simp [roundEven]

theorem exponent_natCast_le {n : Nat} (h : n < 2 ^ 53) : exponent (n : ℚ) ≤ 52 := by
  have hlog : Nat.log2 n ≤ 52 := by
    rcases Nat.eq_zero_or_pos n with rfl | hpos
    · decide
    · exact Nat.lt_succ_iff.mp ((Nat.log2_lt hpos.ne').mpr h)
  have hle : ((Nat.log2 ((n : ℚ).num.natAbs) : ℤ) - Nat.log2 ((n : ℚ).den)) ≤ 52 := by
    rw [Rat.num_natCast, Rat.den_natCast, Int.natAbs_natCast, show Nat.log2 1 = 0 from rfl]
    omega
  simp only [exponent]
  split
  · omega
  · exact hle

theorem natCast_lt_pow2 {n : Nat} (h : n < 2 ^ 53) (k : Nat) (hk : 53 ≤ k) :
    (n : ℚ) < pow2 k :=
  Nat.cast_lt.mpr (h.trans_le (Nat.pow_le_pow_right (by decide) hk))

/-- A natural below 2^53 is a double. -/
theorem round_natCast {n : Nat} (h : n < 2 ^ 53) : round (n : ℚ) = ofNat n := by
  unfold round
  split
  · next h0 => rw [ofNat, h0]
  · obtain ⟨m, hm⟩ : ∃ m : Nat, lastPlace (n : ℚ) = -(m : ℤ) := by
      have hexp := exponent_natCast_le h
      exact ⟨(-lastPlace (n : ℚ)).toNat, by unfold lastPlace; omega⟩
    -- scaled by 2^m the number is an integer, which rounding keeps
    have hpos : (0 : ℚ) < ((2 ^ m : ℕ) : ℚ) := by positivity
    have hint : (n : ℚ) / pow2 (lastPlace n) = ((n * 2 ^ m : ℤ) : ℚ) := by
      rw [hm, pow2_neg, div_inv_eq_mul]
      push_cast
      ring
    have hr : ((roundEven ((n : ℚ) / pow2 (lastPlace n)) : ℤ) : ℚ) * pow2 (lastPlace n) = n := by
      rw [hint, roundEven_intCast, hm, pow2_neg]
      push_cast
      field_simp
    have hsmall : ¬ pow2 1024 ≤ |(n : ℚ)| := by
      rw [Nat.abs_cast, not_le]
      exact natCast_lt_pow2 h 1024 (by decide)
    simp only [hr]
    rw [if_neg hsmall, ofNat]

theorem add_ofNat {m n : Nat} (h : m + n < 2 ^ 53) :
    add (ofNat m) (ofNat n) = ofNat (m + n) := by
  show round ((m : ℚ) + n) = _
  rw [← Nat.cast_add, round_natCast h]

theorem mul_ofNat {m n : Nat} (h : m * n < 2 ^ 53) :
    mul (ofNat m) (ofNat n) = ofNat (m * n) := by
  show round ((m : ℚ) * n) = _
  rw [← Nat.cast_mul, round_natCast h]

theorem trunc_ofNat (n : Nat) : trunc (ofNat n) = some (n : ℤ) := by
  have hnonneg : ¬ (n : ℚ) < 0 := not_lt.mpr (Nat.cast_nonneg n)
  show some (if (n : ℚ) < 0 then _ else _) = _
  rw [if_neg hnonneg, ← Int.cast_natCast, Rat.floor_intCast]

end Double

end Cxx
