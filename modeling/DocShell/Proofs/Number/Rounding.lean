import DocShell.Number.Decimal
import DocShell.Proofs.Text.Digits

namespace DocShell

/-! # Rounding

Rounding sees only the quotient, keeps what is a magnitude already, and gives up
on everything far beyond the largest one. Hence the double of a decimal does not
depend on how its power of ten is shared out between significand and exponent. -/

theorem nearestQuotient_mul_mul (numerator denominator : Nat) {factor : Nat}
    (positive : 0 < factor) :
    nearestQuotient (numerator * factor) (denominator * factor) =
      nearestQuotient numerator denominator := by
  have scaled (rest : Nat) : 2 * (rest * factor) = 2 * rest * factor := by
    rw [Nat.mul_assoc]
  simp only [nearestQuotient, Nat.mul_div_mul_right _ _ positive, Nat.mul_mod_mul_right, scaled,
    Nat.mul_lt_mul_right positive]

theorem nearestQuotient_mul_self (whole : Nat) {denominator : Nat}
    (positive : 0 < denominator) :
    nearestQuotient (whole * denominator) denominator = whole := by
  simp [nearestQuotient, positive]

namespace Magnitude

theorem nearest?_mul_mul (numerator denominator : Nat) {factor : Nat}
    (positive : 0 < factor) :
    nearest? (numerator * factor) (denominator * factor) = nearest? numerator denominator := by
  have quotient := Nat.mul_div_mul_right numerator denominator positive
  have rounded (shift : Nat) :
      nearestQuotient (numerator * factor) (denominator * factor * 2 ^ shift) =
        nearestQuotient numerator (denominator * 2 ^ shift) := by
    rw [Nat.mul_right_comm, nearestQuotient_mul_mul _ _ positive]
  simp only [nearest?, quotient, rounded]

theorem unitsPerOne_pos : 0 < unitsPerOne := Nat.two_pow_pos 1074

theorem units_mk (mantissa shift : Nat) (mantissa_lt : mantissa < 2 ^ 53)
    (shift_le : shift ≤ 2045) (full : shift = 0 ∨ 2 ^ 52 ≤ mantissa) :
    units ⟨mantissa, shift, mantissa_lt, shift_le, full⟩ = mantissa * 2 ^ shift := rfl

theorem shiftFor_units (magnitude : Magnitude) : shiftFor magnitude.units = magnitude.shift := by
  rcases magnitude with ⟨mantissa, shift, mantissa_lt, shift_le, full⟩
  simp only [shiftFor, units]
  rcases full with rfl | large
  · by_cases zero : mantissa = 0
    · simp [zero]
    · have small := (Nat.log2_lt zero).mpr mantissa_lt
      simp only [Nat.pow_zero, Nat.mul_one]
      omega
  · have nonzero : mantissa * 2 ^ shift ≠ 0 :=
      Nat.ne_of_gt (Nat.mul_pos (by omega) (Nat.two_pow_pos shift))
    have log : (mantissa * 2 ^ shift).log2 = 52 + shift := by
      refine (Nat.log2_eq_iff nonzero).mpr ⟨?_, ?_⟩
      · rw [Nat.pow_add]
        exact Nat.mul_le_mul_right _ large
      · rw [show 52 + shift + 1 = 53 + shift by omega, Nat.pow_add]
        exact Nat.mul_lt_mul_of_pos_right mantissa_lt (Nat.two_pow_pos shift)
    omega

/-- A magnitude is its own nearest magnitude. -/
theorem nearest?_units (magnitude : Magnitude) {denominator : Nat}
    (positive : 0 < denominator) :
    nearest? (magnitude.units * denominator) denominator = some magnitude := by
  have exact : nearestQuotient (magnitude.units * denominator)
      (denominator * 2 ^ magnitude.shift) = magnitude.mantissa := by
    rw [units, Nat.mul_assoc, Nat.mul_comm (2 ^ magnitude.shift)]
    exact nearestQuotient_mul_self _ (Nat.mul_pos positive (Nat.two_pow_pos _))
  simp only [nearest?, Nat.mul_div_cancel _ positive, shiftFor_units, exact,
    magnitude.mantissa_lt, magnitude.shift_le, dite_true]

theorem nearest?_eq_none {numerator denominator bits : Nat} (beyond : 2098 ≤ bits)
    (large : 2 ^ bits ≤ numerator / denominator) : nearest? numerator denominator = none := by
  have nonzero : numerator / denominator ≠ 0 := by
    intro zero
    rw [zero] at large
    exact absurd large (Nat.not_le.mpr (Nat.two_pow_pos _))
  have log := (Nat.le_log2 nonzero).mpr large
  have shifted : 2045 < shiftFor (numerator / denominator) := by
    simp only [shiftFor]
    omega
  simp only [nearest?]
  split <;> rw [dif_neg (by omega)]

theorem isSome_nearest? {numerator denominator bits : Nat} (within : bits ≤ 2097)
    (small : numerator / denominator < 2 ^ bits) : (nearest? numerator denominator).isSome = true := by
  have shifted : shiftFor (numerator / denominator) ≤ 2044 := by
    by_cases zero : numerator / denominator = 0
    · rw [zero]
      decide
    · have log := (Nat.log2_lt zero).mpr small
      simp only [shiftFor]
      omega
  simp only [nearest?]
  split
  · rw [dif_pos (by omega)]
    rfl
  · rw [dif_pos (by omega)]
    rfl

theorem eq_zero_of_units {magnitude : Magnitude} (none : magnitude.units = 0) :
    magnitude = zero := by
  rcases magnitude with ⟨mantissa, shift, mantissa_lt, shift_le, full⟩
  have empty : mantissa = 0 := by
    rcases Nat.mul_eq_zero.mp none with zero | power
    · exact zero
    · exact absurd power (Nat.ne_of_gt (Nat.two_pow_pos shift))
  subst empty
  have unshifted : shift = 0 := by omega
  subst unshifted
  rfl

/-- Every integer up to `2 ^ 53` is a magnitude. -/
theorem exists_units_eq {whole : Nat} (exact : whole ≤ 2 ^ 53) :
    ∃ magnitude : Magnitude, magnitude.units = whole * unitsPerOne := by
  rcases Nat.eq_zero_or_pos whole with rfl | positive
  · exact ⟨zero, by simp⟩
  · by_cases top : whole = 2 ^ 53
    · refine ⟨⟨2 ^ 52, 1075, by decide, by decide, .inr (Nat.le_refl _)⟩, ?_⟩
      rw [units_mk, top, unitsPerOne, ← Nat.pow_add, ← Nat.pow_add]
    · have nonzero : whole ≠ 0 := Nat.ne_of_gt positive
      have bits := (Nat.log2_lt nonzero).mpr (show whole < 2 ^ 53 by omega)
      refine ⟨⟨whole * 2 ^ (52 - whole.log2), 1022 + whole.log2, ?_, by omega, .inr ?_⟩, ?_⟩
      · calc whole * 2 ^ (52 - whole.log2)
            < 2 ^ (whole.log2 + 1) * 2 ^ (52 - whole.log2) :=
              Nat.mul_lt_mul_of_pos_right Nat.lt_log2_self (Nat.two_pow_pos _)
          _ = 2 ^ 53 := by
              rw [← Nat.pow_add, show whole.log2 + 1 + (52 - whole.log2) = 53 by omega]
      · calc 2 ^ 52 = 2 ^ whole.log2 * 2 ^ (52 - whole.log2) := by
              rw [← Nat.pow_add, show whole.log2 + (52 - whole.log2) = 52 by omega]
          _ ≤ whole * 2 ^ (52 - whole.log2) :=
              Nat.mul_le_mul_right _ (Nat.log2_self_le nonzero)
      · rw [units, unitsPerOne, Nat.mul_assoc, ← Nat.pow_add,
          show 52 - whole.log2 + (1022 + whole.log2) = 1074 by omega]

end Magnitude

end DocShell
