import Mathlib.Algebra.Order.Field.Power
import Mathlib.Data.Int.Log
import Mathlib.Data.Rat.Floor
import Mathlib.Tactic.Positivity

/-!
Decimal arithmetic with rounding to even: rounding to a fixed number of places
(`quantize`) and to a number of significant digits (the context precision of every
arithmetic operation). Values are exact rationals; what a decimal context adds is rounding.
-/
namespace Decimal

def roundHalfEven (q : ℚ) : ℤ :=
  let low := ⌊q⌋
  let rest := q - low
  if rest < 1 / 2 then low
  else if 1 / 2 < rest then low + 1
  else if low % 2 = 0 then low else low + 1

@[simp] theorem roundHalfEven_intCast (n : ℤ) : roundHalfEven (n : ℚ) = n := by
  simp [roundHalfEven]

@[simp] theorem roundHalfEven_zero : roundHalfEven 0 = 0 := by
  simpa using roundHalfEven_intCast 0

def quantize (places : ℕ) (q : ℚ) : ℚ := roundHalfEven (q * 10 ^ places) / 10 ^ places

theorem quantize_of_multiple (places : ℕ) {q : ℚ} {n : ℤ} (multiple : q * 10 ^ places = n) :
    quantize places q = q := by
  have power : (10 : ℚ) ^ places ≠ 0 := by positivity
  rw [quantize, multiple, roundHalfEven_intCast, ← multiple]
  exact mul_div_cancel_right₀ q power

theorem quantize_multiple (places : ℕ) (q : ℚ) :
    quantize places q * 10 ^ places = roundHalfEven (q * 10 ^ places) := by
  have power : (10 : ℚ) ^ places ≠ 0 := by positivity
  rw [quantize]
  exact div_mul_cancel₀ _ power

@[simp] theorem quantize_quantize (places : ℕ) (q : ℚ) :
    quantize places (quantize places q) = quantize places q :=
  quantize_of_multiple places (quantize_multiple places q)

/-- Rounding to `digits` significant digits of base `base`. In base ten this is what every
operation of a decimal context does, in base two (53 digits) a floating-point one. -/
def significant (base digits : ℕ) (q : ℚ) : ℚ :=
  let quantum : ℚ := (base : ℚ) ^ (Int.log base |q| + 1 - digits)
  roundHalfEven (q / quantum) * quantum

theorem significant_exact {base : ℕ} (proper : 1 < base) (digits : ℕ) (coefficient : ℤ)
    (exponent : ℤ) (fits : |coefficient| < (base : ℤ) ^ digits) :
    significant base digits (coefficient * (base : ℚ) ^ exponent) =
      coefficient * (base : ℚ) ^ exponent := by
  have positiveBase : (0 : ℚ) < base := by
    have : 0 < base := by omega
    exact_mod_cast this
  by_cases zero : coefficient = 0
  · subst zero
    simp [significant]
  · have size : |(coefficient : ℚ) * (base : ℚ) ^ exponent| =
        |(coefficient : ℚ)| * (base : ℚ) ^ exponent := by
      rw [abs_mul, abs_of_pos (by positivity : (0 : ℚ) < (base : ℚ) ^ exponent)]
    have positive : (0 : ℚ) < |(coefficient : ℚ) * (base : ℚ) ^ exponent| := by
      rw [size]
      have : (0 : ℚ) < |(coefficient : ℚ)| := by
        rw [abs_pos]
        exact_mod_cast zero
      positivity
    have bound : |(coefficient : ℚ) * (base : ℚ) ^ exponent| <
        (base : ℚ) ^ ((digits : ℤ) + exponent) := by
      have fits' : |(coefficient : ℚ)| < (base : ℚ) ^ digits := by exact_mod_cast fits
      rw [size, zpow_add₀ positiveBase.ne', zpow_natCast]
      exact mul_lt_mul_of_pos_right fits' (by positivity)
    have leading : Int.log base |(coefficient : ℚ) * (base : ℚ) ^ exponent| <
        (digits : ℤ) + exponent :=
      (Int.lt_zpow_iff_log_lt proper positive).mp bound
    -- The quantum is a smaller power of the base, so the quotient is an integer.
    obtain ⟨shift, gap⟩ : ∃ k : ℕ,
        exponent - (Int.log base |(coefficient : ℚ) * (base : ℚ) ^ exponent| + 1 - digits) = k :=
      ⟨_, (Int.toNat_of_nonneg (by omega)).symm⟩
    have whole : (coefficient : ℚ) * (base : ℚ) ^ exponent /
        (base : ℚ) ^ (Int.log base |(coefficient : ℚ) * (base : ℚ) ^ exponent| + 1 - digits) =
        ((coefficient * (base : ℤ) ^ shift : ℤ) : ℚ) := by
      rw [mul_div_assoc, ← zpow_sub₀ positiveBase.ne', gap]
      push_cast
      rw [zpow_natCast]
    have quantum : (base : ℚ) ^
        (Int.log base |(coefficient : ℚ) * (base : ℚ) ^ exponent| + 1 - digits) ≠ 0 := by
      positivity
    rw [significant, whole, roundHalfEven_intCast, ← whole]
    exact div_mul_cancel₀ _ quantum

section Errors

theorem roundHalfEven_error (q : ℚ) : |(roundHalfEven q : ℚ) - q| ≤ 1 / 2 := by
  have low := Int.floor_le q
  have high := Int.lt_floor_add_one q
  rw [abs_le]
  unfold roundHalfEven
  simp only
  split_ifs <;> constructor <;> push_cast <;> linarith

theorem quantize_error (places : ℕ) (q : ℚ) :
    |quantize places q - q| ≤ 1 / (2 * 10 ^ places) := by
  have power : (0 : ℚ) < 10 ^ places := by positivity
  have scaled : quantize places q - q =
      ((roundHalfEven (q * 10 ^ places) : ℚ) - q * 10 ^ places) / 10 ^ places := by
    rw [quantize]
    field_simp
  rw [scaled, abs_div, abs_of_pos power, div_le_div_iff₀ power (by positivity)]
  have bound := roundHalfEven_error (q * 10 ^ places)
  nlinarith

theorem quantize_small {places : ℕ} {q : ℚ} (small : |q| * (2 * 10 ^ places) < 1) :
    quantize places q = 0 := by
  have error := roundHalfEven_error (q * 10 ^ places)
  have scaled : |q * 10 ^ places| < 1 / 2 := by
    rw [abs_mul, abs_of_pos (by positivity : (0 : ℚ) < 10 ^ places)]
    linarith
  have whole : |(roundHalfEven (q * 10 ^ places) : ℚ)| < 1 := by
    rw [abs_lt] at scaled ⊢
    rw [abs_le] at error
    constructor <;> linarith
  have zero : roundHalfEven (q * 10 ^ places) = 0 := by
    rw [← Int.abs_lt_one_iff]
    exact_mod_cast whole
  rw [quantize, zero]
  simp

/-- `y` stands for `x` with a relative error of at most `u`. -/
def Near (u x y : ℚ) : Prop := |y - x| ≤ u * |x|

variable {u v x y z a b : ℚ}

theorem Near.mono (near : Near u x y) (weaker : u ≤ v) : Near v x y :=
  near.trans (mul_le_mul_of_nonneg_right weaker (abs_nonneg x))

theorem Near.abs_le (near : Near u x y) : |y| ≤ (1 + u) * |x| := by
  have split := abs_add_le x (y - x)
  rw [add_sub_cancel] at split
  unfold Near at near
  linarith

theorem Near.zero (near : Near u x 0) (proper : u < 1) : x = 0 := by
  unfold Near at near
  rw [zero_sub, abs_neg] at near
  have nonneg := abs_nonneg x
  have none : |x| = 0 := by nlinarith
  exact abs_eq_zero.mp none

theorem Near.pos (near : Near u x y) (proper : u < 1) (positive : 0 < x) : 0 < y := by
  unfold Near at near
  rw [abs_of_pos positive, abs_sub_le_iff] at near
  nlinarith

theorem Near.trans (nonneg : 0 ≤ v) (first : Near u x y) (second : Near v y z) :
    Near (u + v + u * v) x z := by
  have sizes := mul_le_mul_of_nonneg_left first.abs_le nonneg
  unfold Near at first second ⊢
  calc |z - x| = |(z - y) + (y - x)| := by rw [sub_add_sub_cancel]
    _ ≤ |z - y| + |y - x| := abs_add_le _ _
    _ ≤ v * |y| + u * |x| := add_le_add second first
    _ ≤ (u + v + u * v) * |x| := by linarith

theorem Near.mul_right (near : Near u x y) (c : ℚ) : Near u (x * c) (y * c) := by
  unfold Near at near ⊢
  rw [← sub_mul, abs_mul, abs_mul, ← mul_assoc]
  exact mul_le_mul_of_nonneg_right near (abs_nonneg c)

theorem Near.mul (nonneg : 0 ≤ v) (left : Near u x y) (right : Near v a b) :
    Near (u + v + u * v) (x * a) (y * b) := by
  have first := left.mul_right a
  have second := right.mul_right y
  rw [mul_comm a y, mul_comm b y] at second
  exact first.trans nonneg second

theorem significant_near {base : ℕ} (proper : 1 < base) (digits : ℕ) (q : ℚ) :
    Near ((base : ℚ) ^ (1 - digits : ℤ) / 2) q (significant base digits q) := by
  have positiveBase : (0 : ℚ) < base := by
    have : 0 < base := by omega
    exact_mod_cast this
  by_cases zero : q = 0
  · subst zero
    simp [Near, significant]
  · have leading : (base : ℚ) ^ Int.log base |q| ≤ |q| :=
      Int.zpow_log_le_self proper (abs_pos.mpr zero)
    set quantum : ℚ := (base : ℚ) ^ (Int.log base |q| + 1 - digits) with quantum_eq
    have positive : 0 < quantum := by positivity
    have split : quantum = (base : ℚ) ^ (1 - digits : ℤ) * (base : ℚ) ^ Int.log base |q| := by
      rw [quantum_eq, ← zpow_add₀ positiveBase.ne']
      congr 1
      ring
    have scaled : significant base digits q - q =
        ((roundHalfEven (q / quantum) : ℚ) - q / quantum) * quantum := by
      rw [significant, sub_mul, div_mul_cancel₀ _ positive.ne']
    unfold Near
    rw [scaled, abs_mul, abs_of_pos positive]
    calc |(roundHalfEven (q / quantum) : ℚ) - q / quantum| * quantum
        ≤ 1 / 2 * quantum := mul_le_mul_of_nonneg_right (roundHalfEven_error _) positive.le
      _ = (base : ℚ) ^ (1 - digits : ℤ) / 2 * (base : ℚ) ^ Int.log base |q| := by
        rw [split]
        ring
      _ ≤ (base : ℚ) ^ (1 - digits : ℤ) / 2 * |q| :=
        mul_le_mul_of_nonneg_left leading (by positivity)

end Errors

end Decimal
