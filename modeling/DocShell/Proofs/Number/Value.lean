import DocShell.Proofs.Number.Decimal
import Mathlib.Algebra.Order.Field.Power
import Mathlib.Algebra.Order.Field.Rat
import Mathlib.Data.Rat.Cast.Order
import Mathlib.Tactic.Ring

namespace DocShell

/-! # Exact values

A numeral denotes a rational number, and the double that it is read as depends on that
number alone. -/

/-- The number that a numeral denotes, before any rounding. -/
def Numeral.value (numeral : Numeral) : ℚ :=
  Text.natOfDigits numeral.digits * 10 ^ (numeral.exponent - numeral.fraction.length)

def Decimal.value (decimal : Decimal) : ℚ :=
  Text.natOfDigits decimal.digits * 10 ^ (decimal.point - decimal.digits.length)

theorem ten_zpow_add (left right : ℤ) : (10 : ℚ) ^ (left + right) = 10 ^ left * 10 ^ right :=
  zpow_add₀ (by norm_num) left right

theorem ten_zpow_pos (power : ℤ) : (0 : ℚ) < 10 ^ power := zpow_pos (by norm_num) power

/-- Powers of ten that are split between a factor and an exponent. -/
theorem mul_pow_mul_zpow (number power : ℕ) (exponent : ℤ) :
    ((number * 10 ^ power : ℕ) : ℚ) * 10 ^ exponent = number * 10 ^ (exponent + power) := by
  rw [ten_zpow_add, zpow_natCast]
  push_cast
  ring

/-- Equal multiples of powers of ten differ by a power of ten in their factors. -/
theorem eq_mul_pow_of_mul_zpow_eq {left right : ℕ} {small large : ℤ} (ordered : small ≤ large)
    (same : (left : ℚ) * 10 ^ small = right * 10 ^ large) :
    left = right * 10 ^ (large - small).toNat := by
  have split : small + ((large - small).toNat : ℤ) = large := by omega
  have scaled := mul_pow_mul_zpow right (large - small).toNat small
  rw [split, ← same] at scaled
  have equal := mul_right_cancel₀ (ten_zpow_pos small).ne' scaled
  exact_mod_cast equal.symm

namespace Double

/-- The double of a decimal depends on its value alone. -/
theorem ofDecimal_congr (negative : Bool) {left right : ℕ} {first second : ℤ}
    (same : (left : ℚ) * 10 ^ first = right * 10 ^ second) :
    ofDecimal negative left first = ofDecimal negative right second := by
  rcases le_total first second with ordered | ordered
  · have split : first + ((second - first).toNat : ℤ) = second := by omega
    rw [eq_mul_pow_of_mul_zpow_eq ordered same, ofDecimal_mul_pow, split]
  · have split : second + ((first - second).toNat : ℤ) = first := by omega
    rw [eq_mul_pow_of_mul_zpow_eq ordered same.symm, ofDecimal_mul_pow, split]

end Double

/-- A numeral and a decimal of the same value are the same double. -/
theorem Numeral.toDouble_eq_of_value {numeral : Numeral} {decimal : Decimal}
    (same : numeral.value = decimal.value) (negative : Bool) :
    numeral.toDouble negative = decimal.toDouble negative :=
  Double.ofDecimal_congr negative same

end DocShell
